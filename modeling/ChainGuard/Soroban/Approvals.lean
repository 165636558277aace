import ChainGuard.Library.Tally
import ChainGuard.Soroban.Records

/-! What the approval paths and the vault operations do. One approval adds its guardian, a list of
guardians adds those that are new, and a batch of Ed25519 signatures adds nobody; each ends in
the same settlement. Vault records keep their threshold and never lose a guardian. -/
namespace ChainGuard.Soroban
open Guarded History
set_option autoImplicit false

variable {host : Host} {env : Env} {s s' : State} {q q' : Requests} {a : Grants} {logs : List Event}

/-! ## Vault records -/

inductive VaultEffect (v v' : Vaults) : Prop
  | kept : v'.vaults = v.vaults → v'.vaultCount = v.vaultCount → VaultEffect v v'
  | created (record : VaultRecord) : 0 < record.vault.approvalThreshold →
      v'.vaults = Function.update v.vaults (v.vaultCount + 1) (some record) →
      v'.vaultCount = v.vaultCount + 1 → VaultEffect v v'
  | updated (i : ℕ) (record record' : VaultRecord) : v.vaults i = some record →
      v'.vaults = Function.update v.vaults i (some record') → v'.vaultCount = v.vaultCount →
      record'.vault.approvalThreshold = record.vault.approvalThreshold →
      record.vault.guardians ⊆ record'.vault.guardians → VaultEffect v v'

theorem RecordWrite.effect {v v' : Vaults} {synced : Option ℕ} (h : RecordWrite v v' synced) :
    VaultEffect v v' := by
  cases h with
  | kept hvaults hcount => exact .kept hvaults hcount
  | created record hpos hvaults hcount => exact .created record hpos hvaults hcount
  | saved w record record' hrecord _ hvaults hcount hthreshold hguardians =>
    exact .updated w record record' hrecord hvaults hcount hthreshold hguardians
  | synced w record releaseState hrecord _ hvaults hcount =>
    exact .updated w record _ hrecord hvaults hcount rfl (List.Subset.refl _)

theorem Steps.vault_effect {i : Invocation} (h : Steps host s i s') : VaultEffect s.vaults s'.vaults :=
  h.record_write.effect

structure VaultsOk (v : Vaults) : Prop where
  counted : ∀ i record, v.vaults i = some record → i ≤ v.vaultCount
  threshold : ∀ i record, v.vaults i = some record → 0 < record.vault.approvalThreshold

theorem VaultsOk.step {v v' : Vaults} (hI : VaultsOk v) (h : VaultEffect v v') : VaultsOk v' := by
  cases h with
  | kept hvaults hcount =>
    refine ⟨fun i record hi => ?_, fun i record hi => ?_⟩
    · rw [hvaults] at hi
      rw [hcount]
      exact hI.counted i record hi
    · rw [hvaults] at hi
      exact hI.threshold i record hi
  | created new hpos hvaults hcount =>
    refine ⟨fun i record hi => ?_, fun i record hi => ?_⟩
    · rw [hvaults, Function.update_apply] at hi
      rw [hcount]
      split at hi
      · omega
      · have := hI.counted i record hi
        omega
    · rw [hvaults, Function.update_apply] at hi
      split at hi
      · cases hi
        exact hpos
      · exact hI.threshold i record hi
  | updated j old new hold hvaults hcount hthreshold _ =>
    refine ⟨fun i record hi => ?_, fun i record hi => ?_⟩
    · rw [hvaults, Function.update_apply] at hi
      rw [hcount]
      split at hi
      · next heq =>
        rw [heq]
        exact hI.counted j old hold
      · exact hI.counted i record hi
    · rw [hvaults, Function.update_apply] at hi
      split at hi
      · cases hi
        rw [hthreshold]
        exact hI.threshold j old hold
      · exact hI.threshold i record hi

theorem vaultsOk {hist : List (Transition State Invocation)} (h : StellarRun host hist s) :
    VaultsOk s.vaults := by
  refine h.invariant (I := fun s => VaultsOk s.vaults) ?_ ?_
  · rintro s rfl
    exact ⟨fun _ _ hi => (by cases hi), fun _ _ hi => (by cases hi)⟩
  · intro s i s' hI hstep
    exact hI.step hstep.vault_effect

theorem VaultEffect.record_kept {v v' : Vaults} (h : VaultEffect v v') (hI : VaultsOk v) {i : ℕ}
    {record : VaultRecord} (hi : v.vaults i = some record) :
    ∃ record', v'.vaults i = some record' ∧
      record'.vault.approvalThreshold = record.vault.approvalThreshold ∧
      record.vault.guardians ⊆ record'.vault.guardians := by
  cases h with
  | kept hvaults _ => exact ⟨record, by rw [hvaults, hi], rfl, List.Subset.refl _⟩
  | created new _ hvaults _ =>
    have hle := hI.counted i record hi
    refine ⟨record, ?_, rfl, List.Subset.refl _⟩
    rw [hvaults, Function.update_of_ne (by omega), hi]
  | updated j old new hold hvaults _ hthreshold hsub =>
    by_cases hij : i = j
    · subst hij
      rw [hold] at hi
      cases hi
      exact ⟨new, by rw [hvaults, Function.update_self], hthreshold, hsub⟩
    · exact ⟨record, by rw [hvaults, Function.update_of_ne hij, hi], rfl, List.Subset.refl _⟩

/-! ## Documents -/

/-- What a transition does to the stored documents. -/
inductive DocumentEffect (d d' : Documents) : Prop
  | kept : d'.docs = d.docs → d'.docCount = d.docCount → DocumentEffect d d'
  | added (doc : Document) : d'.docs = Function.update d.docs (d.docCount + 1) (some doc) →
      d'.docCount = d.docCount + 1 → DocumentEffect d d'

/-- What adding a document requires and stores. -/
structure Uploads (env : Env) (s : State) (uploader : Address) (vaultId : ℕ) (d' : Documents)
    (a' : Grants) : Prop where
  record : ∃ record, s.vaults.vaults vaultId = some record ∧ uploader ∈ record.vault.guardians
  docs : ∃ doc : Document, doc.vaultId = vaultId ∧
    d'.docs = Function.update s.documents.docs (s.documents.docCount + 1) (some doc)
  counter : d'.docCount = s.documents.docCount + 1
  hasAccess : a'.hasAccess =
    Mapping.set₂ s.grants.hasAccess (s.documents.docCount + 1) uploader true

theorem addDocument_ok {uploader : Address} {vaultId : ℕ} {encryptedMetadata ipfsHash : Bytes}
    {requiredAccess : AccessLevel} {releaseCondition : ReleaseCondition} {guardiansList : List Address}
    {shares : List Bytes} {d' : Documents}
    (h : addDocument env s uploader vaultId encryptedMetadata ipfsHash requiredAccess releaseCondition
      guardiansList shares = .ok ((d', a), logs)) : Uploads env s uploader vaultId d' a := by
  simp only [addDocument, bind_ok, requireAuth_ok, assert_ok, loadVaultRecord_ok, exists_const, pure_ok,
    Prod.mk.injEq] at h
  obtain ⟨_, record, hrecord, _, hguardian, _, _, ⟨rfl, rfl⟩, _⟩ := h
  exact ⟨⟨record, hrecord, hguardian⟩, ⟨_, rfl, rfl⟩, rfl, rfl⟩

theorem saveGuardianSharesFhe_docs {uploader : Address} {documentId : ℕ} {guardiansList : List Address}
    {sharesFhe : List Bytes} {d' : Documents}
    (h : saveGuardianSharesFhe env s uploader documentId guardiansList sharesFhe = .ok (d', logs)) :
    d'.docs = s.documents.docs ∧ d'.docCount = s.documents.docCount := by
  simp only [saveGuardianSharesFhe, bind_ok, requireAuth_ok, assert_ok, loadDocument_ok,
    loadVaultRecord_ok, exists_const, pure_ok, Prod.mk.injEq] at h
  obtain ⟨_, doc, _, record, _, _, _, rfl, _⟩ := h
  exact ⟨rfl, rfl⟩

theorem Steps.document_effect {i : Invocation} (h : Steps host s i s') :
    DocumentEffect s.documents s'.documents := by
  cases h.effect with
  | addDocument hadd =>
    have hup := addDocument_ok hadd
    obtain ⟨doc, _, hdocs⟩ := hup.docs
    exact .added doc hdocs hup.counter
  | saveGuardianSharesFhe hsave =>
    obtain ⟨hdocs, hcount⟩ := saveGuardianSharesFhe_docs hsave
    exact .kept hdocs hcount
  | _ => exact .kept rfl rfl

/-- A document lives at a number already counted. -/
def DocumentsCounted (d : Documents) : Prop := ∀ i doc, d.docs i = some doc → i ≤ d.docCount

theorem documentsCounted {hist : List (Transition State Invocation)} (h : StellarRun host hist s) :
    DocumentsCounted s.documents := by
  refine h.invariant (I := fun s => DocumentsCounted s.documents) ?_ ?_
  · rintro s rfl i doc hi
    cases hi
  · intro s i s' hI hstep j doc hj
    cases hstep.document_effect with
    | kept hdocs hcount =>
      rw [hdocs] at hj
      rw [hcount]
      exact hI j doc hj
    | added new hdocs hcount =>
      rw [hdocs, Function.update_apply] at hj
      rw [hcount]
      split at hj
      · omega
      · have := hI j doc hj
        omega

theorem DocumentEffect.kept_doc {d d' : Documents} (h : DocumentEffect d d') (hc : DocumentsCounted d)
    {i : ℕ} {doc : Document} (hi : d.docs i = some doc) : d'.docs i = some doc := by
  cases h with
  | kept hdocs _ => rw [hdocs, hi]
  | added new hdocs _ =>
    have hle := hc i doc hi
    rw [hdocs, Function.update_of_ne (by omega), hi]

/-! ## Settlement -/

/-- A pending request with its document and the record of its active vault. -/
structure Approvable (env : Env) (s : State) (requestId : ℕ) (request : AccessRequest) (doc : Document)
    (record : VaultRecord) : Prop where
  stored : s.requests.requests requestId = some request
  pending : request.status = .Pending
  unexpired : env.timestamp < request.expiresAt
  document : s.documents.docs request.documentId = some doc
  vault : s.vaults.vaults doc.vaultId = some record
  active : record.vault.isActive = true

theorem loadPending_ok {requestId : ℕ} {request : AccessRequest} :
    loadPending env s requestId = .ok request ↔ s.requests.requests requestId = some request ∧
      request.status = .Pending ∧ env.timestamp < request.expiresAt := by
  simp only [loadPending, bind_ok, expect_ok, assert_ok, exists_const, pure_ok]
  constructor
  · rintro ⟨r, h1, h2, h3, rfl⟩
    exact ⟨h1, h2, h3⟩
  · rintro ⟨h1, h2, h3⟩
    exact ⟨request, h1, h2, h3, rfl⟩

theorem loadActive_ok {documentId : ℕ} {doc : Document} {record : VaultRecord} :
    loadActive s documentId = .ok (doc, record) ↔ s.documents.docs documentId = some doc ∧
      s.vaults.vaults doc.vaultId = some record ∧ record.vault.isActive = true := by
  simp only [loadActive, bind_ok, loadDocument_ok, loadVaultRecord_ok, assert_ok, exists_const, pure_ok,
    Prod.mk.injEq]
  constructor
  · rintro ⟨d, h1, r, h2, h3, rfl, rfl⟩
    exact ⟨h1, h2, h3⟩
  · rintro ⟨h1, h2, h3⟩
    exact ⟨doc, h1, record, h2, h3, rfl, rfl⟩

theorem approveRequest_ok {requestId : ℕ} {request : AccessRequest} {doc : Document}
    {announced : List Event}
    (h : approveRequest env s q requestId request doc announced = .ok ((q', a), logs)) :
    q' = setRequest q requestId { request with status := .Approved } ∧
      a = grantRequest s.grants request doc := by
  simp only [approveRequest, bind_ok, pure_ok, Prod.mk.injEq] at h
  obtain ⟨_, _, ⟨rfl, rfl⟩, _⟩ := h
  exact ⟨rfl, rfl⟩

/-- The two ends of a counted approval. -/
inductive Settles (s : State) (q : Requests) (requestId : ℕ) (request : AccessRequest) (doc : Document)
    (record : VaultRecord) : Requests → Grants → Prop
  | below : request.approvedBy.length < record.vault.approvalThreshold →
      Settles s q requestId request doc record (setRequest q requestId request) s.grants
  | reached : record.vault.approvalThreshold ≤ request.approvedBy.length →
      Settles s q requestId request doc record
        (setRequest q requestId { request with status := .Approved }) (grantRequest s.grants request doc)

theorem settleRequest_ok {requestId : ℕ} {request : AccessRequest} {doc : Document}
    {record : VaultRecord} {announced : List Event}
    (h : settleRequest env s q requestId request doc record announced = .ok ((q', a), logs)) :
    Settles s q requestId request doc record q' a := by
  unfold settleRequest at h
  split at h
  · next hreached =>
    obtain ⟨rfl, rfl⟩ := approveRequest_ok h
    exact .reached hreached
  · next hbelow =>
    simp only [pure_ok, Prod.mk.injEq] at h
    obtain ⟨⟨rfl, rfl⟩, _⟩ := h
    exact .below (not_le.mp hbelow)

/-- The bookkeeping of requests, without the shares and nonces stored beside it. -/
structure SameBookkeeping (q q' : Requests) : Prop where
  counter : q'.reqCount = q.reqCount
  requests : q'.requests = q.requests
  flags : q'.approvedReq = q.approvedReq

theorem saveShare_bookkeeping (q : Requests) (requestId : ℕ) (guardian : Address) (share : Option Bytes) :
    SameBookkeeping q (saveShare q requestId guardian share) := by
  cases share with
  | none => exact ⟨rfl, rfl, rfl⟩
  | some share => exact ⟨rfl, rfl, rfl⟩

theorem accumulateFheShare_bookkeeping {requestId : ℕ} {approver : Address} {fheShare : Bytes}
    (h : accumulateFheShare q requestId approver fheShare = .ok (q', logs)) : SameBookkeeping q q' := by
  unfold accumulateFheShare at h
  split at h
  · simp only [pure_ok, Prod.mk.injEq] at h
    obtain ⟨rfl, _⟩ := h
    exact ⟨rfl, rfl, rfl⟩
  · simp only [bind_ok, pure_ok, Prod.mk.injEq] at h
    obtain ⟨newAcc, _, rfl, _⟩ := h
    exact ⟨rfl, rfl, rfl⟩

/-! ## The three kinds of approval -/

structure OneApproval (env : Env) (s : State) (requestId : ℕ) (approver : Address)
    (request : AccessRequest) (doc : Document) (record : VaultRecord) (q : Requests) (a : Grants) : Prop where
  approvable : Approvable env s requestId request doc record
  is_guardian : approver ∈ record.vault.guardians
  unflagged : s.requests.approvedReq requestId approver = false
  settles : ∃ recorded, SameBookkeeping (flagApproval s.requests requestId approver) recorded ∧
    Settles s recorded requestId { request with approvedBy := request.approvedBy ++ [approver] } doc
      record q a

theorem approveAccess_ok {approver : Address} {requestId : ℕ} {share : Option Bytes}
    (h : approveAccess env s approver requestId share = .ok ((q, a), logs)) :
    ∃ request doc record, OneApproval env s requestId approver request doc record q a := by
  simp only [approveAccess, bind_ok, requireAuth_ok, assert_ok, exists_const] at h
  obtain ⟨_, request, hpending, ⟨doc, record⟩, hactive, hguardian, hflag, h⟩ := h
  obtain ⟨hstored, hstatus, hexpiry⟩ := loadPending_ok.mp hpending
  obtain ⟨hdoc, hrecord, hact⟩ := loadActive_ok.mp hactive
  exact ⟨request, doc, record, ⟨hstored, hstatus, hexpiry, hdoc, hrecord, hact⟩, hguardian, hflag, _,
    saveShare_bookkeeping _ _ _ _, settleRequest_ok h⟩

theorem approveAccessFhe_ok {approver : Address} {requestId : ℕ} {fheShare : Bytes}
    (h : approveAccessFhe env s approver requestId fheShare = .ok ((q, a), logs)) :
    ∃ request doc record, OneApproval env s requestId approver request doc record q a ∧
      request.requester ≠ approver := by
  simp only [approveAccessFhe, bind_ok, requireAuth_ok, assert_ok, exists_const, pure_ok,
    Prod.mk.injEq] at h
  obtain ⟨_, request, hpending, hother, ⟨doc, record⟩, hactive, hguardian, hflag, ⟨accumulated, ev⟩,
    hshare, ⟨settled, ev'⟩, hsettle, rfl, _⟩ := h
  obtain ⟨hstored, hstatus, hexpiry⟩ := loadPending_ok.mp hpending
  obtain ⟨hdoc, hrecord, hact⟩ := loadActive_ok.mp hactive
  exact ⟨request, doc, record, ⟨⟨hstored, hstatus, hexpiry, hdoc, hrecord, hact⟩, hguardian, hflag, _,
    accumulateFheShare_bookkeeping hshare, settleRequest_ok hsettle⟩, hother⟩

/-- What the loop over the listed guardians leaves. -/
structure Processed (requestId : ℕ) (guardians : List Address) (q : Requests) (request : AccessRequest)
    (listed : List Address) (q' : Requests) (request' : AccessRequest) : Prop where
  counts : Tally.Counts (q.approvedReq requestId) request.approvedBy →
    Tally.Counts (q'.approvedReq requestId) request'.approvedBy
  members : ∀ g ∈ listed, g ∈ guardians ∧ g ≠ request.requester
  approvers : ∀ g ∈ request'.approvedBy, g ∈ request.approvedBy ∨ g ∈ listed
  same : request' = { request with approvedBy := request'.approvedBy }
  counter : q'.reqCount = q.reqCount
  requests : q'.requests = q.requests
  flags : ∀ r, r ≠ requestId → q'.approvedReq r = q.approvedReq r

theorem recordListed_processed (requestId : ℕ) {guardians : List Address} {guardian : Address}
    (q : Requests) (request : AccessRequest) (hguardian : guardian ∈ guardians)
    (hother : guardian ≠ request.requester) :
    Processed requestId guardians q request [guardian] (recordListed requestId guardian q request).1
      (recordListed requestId guardian q request).2 := by
  have hmembers : ∀ g ∈ [guardian], g ∈ guardians ∧ g ≠ request.requester := by
    intro g hg
    rw [List.mem_singleton] at hg
    subst hg
    exact ⟨hguardian, hother⟩
  unfold recordListed
  split
  · exact ⟨id, hmembers, fun _ => Or.inl, rfl, rfl, rfl, fun _ _ => rfl⟩
  · next hflag =>
    refine ⟨fun hcounts => ?_, hmembers, ?_, rfl, rfl, rfl, ?_⟩
    · change Tally.Counts (Mapping.set₂ q.approvedReq requestId guardian true requestId)
        (request.approvedBy ++ [guardian])
      rw [Mapping.set₂_row]
      exact hcounts.push (Bool.eq_false_of_not_eq_true hflag)
    · intro g hg
      exact List.mem_append.mp hg
    · intro r hr
      exact Mapping.set₂_other _ _ _ _ _ hr

theorem Processed.trans {requestId : ℕ} {guardians listed listed' : List Address}
    {q₁ q₂ q₃ : Requests} {r₁ r₂ r₃ : AccessRequest}
    (h : Processed requestId guardians q₁ r₁ listed q₂ r₂)
    (h' : Processed requestId guardians q₂ r₂ listed' q₃ r₃) :
    Processed requestId guardians q₁ r₁ (listed ++ listed') q₃ r₃ where
  counts := fun hc => h'.counts (h.counts hc)
  members := fun g hg => by
    rcases List.mem_append.mp hg with hg | hg
    · exact h.members g hg
    · have hmember := h'.members g hg
      rw [h.same] at hmember
      exact hmember
  approvers := fun g hg => by
    rcases h'.approvers g hg with hg | hg
    · rcases h.approvers g hg with hg | hg
      · exact Or.inl hg
      · exact Or.inr (List.mem_append_left _ hg)
    · exact Or.inr (List.mem_append_right _ hg)
  same := by
    conv_lhs => rw [h'.same, h.same]
  counter := h'.counter.trans h.counter
  requests := h'.requests.trans h.requests
  flags := fun r hr => (h'.flags r hr).trans (h.flags r hr)

theorem Processed.of_bookkeeping {requestId : ℕ} {guardians listed : List Address}
    {request request' : AccessRequest} {q₁ q₂ : Requests}
    (h : Processed requestId guardians q request listed q₁ request') (hsame : SameBookkeeping q₁ q₂) :
    Processed requestId guardians q request listed q₂ request' where
  counts := fun hc => by
    rw [hsame.flags]
    exact h.counts hc
  members := h.members
  approvers := h.approvers
  same := h.same
  counter := hsame.counter.trans h.counter
  requests := hsame.requests.trans h.requests
  flags := fun r hr => by
    rw [hsame.flags]
    exact h.flags r hr

theorem processGuardians_ok {requestId vaultId : ℕ} {guardians listed : List Address}
    {request request' : AccessRequest} {encryptedShares : List Bytes}
    (h : processGuardians s requestId vaultId guardians q request listed encryptedShares =
      .ok (q', request')) : Processed requestId guardians q request listed q' request' := by
  induction listed generalizing q request encryptedShares with
  | nil =>
    simp only [processGuardians, pure_ok, Prod.mk.injEq] at h
    obtain ⟨rfl, rfl⟩ := h
    exact ⟨id, fun g hg => absurd hg List.not_mem_nil, fun _ => Or.inl, rfl, rfl, rfl, fun _ _ => rfl⟩
  | cons guardian rest ih =>
    simp only [processGuardians, bind_ok, assert_ok, expect_ok, exists_const] at h
    obtain ⟨hguardian, hother, keyInfo, _, _, hrest⟩ := h
    have hone := (recordListed_processed requestId q request hguardian hother).of_bookkeeping
      (saveShare_bookkeeping _ requestId guardian (encryptedShares.head?.filter (· ≠ [])))
    exact hone.trans (ih hrest)

structure BatchApproval (env : Env) (s : State) (requestId : ℕ) (listed : List Address)
    (sig aggPk : Bytes) (request : AccessRequest) (doc : Document) (record : VaultRecord)
    (q : Requests) (a : Grants) : Prop where
  approvable : Approvable env s requestId request doc record
  enough : record.vault.approvalThreshold ≤ listed.length
  wellFormed : BLSVerifier.isValidG1 aggPk = true ∧ BLSVerifier.isValidG2 sig = true
  settles : ∃ processed request', Processed requestId record.vault.guardians s.requests request listed
      processed request' ∧ Settles s processed requestId request' doc record q a

theorem verifyThresholdSignature_iff {requestId vaultId documentId count threshold : ℕ}
    {requester : Address} {aggPk sig : Bytes} :
    BLSVerifier.verifyThresholdSignature requestId vaultId documentId requester aggPk sig count threshold =
      true ↔ threshold ≤ count ∧ BLSVerifier.isValidG1 aggPk = true ∧ BLSVerifier.isValidG2 sig = true := by
  unfold BLSVerifier.verifyThresholdSignature
  split_ifs with h1 h2 h3
  · exact iff_of_false id fun h => absurd h.1 (not_le.mpr h1)
  · refine iff_of_false id fun h => ?_
    rw [h.2.1] at h2
    cases h2
  · refine iff_of_false id fun h => ?_
    rw [h.2.2] at h3
    cases h3
  · exact iff_of_true rfl ⟨not_lt.mp h1, by simpa using h2, by simpa using h3⟩

theorem approveAccessBLS_ok {requestId : ℕ} {listed : List Address} {sig aggPk : Bytes}
    {encryptedShares : List Bytes}
    (h : approveAccessBLS env s requestId listed sig aggPk encryptedShares = .ok ((q, a), logs)) :
    ∃ request doc record, BatchApproval env s requestId listed sig aggPk request doc record q a := by
  simp only [approveAccessBLS, bind_ok, assert_ok, exists_const, verifyThresholdSignature_iff] at h
  obtain ⟨request, hpending, ⟨doc, record⟩, hactive, henough, ⟨processed, request'⟩, hloop,
    ⟨_, hwf⟩, hsettle⟩ := h
  obtain ⟨hstored, hstatus, hexpiry⟩ := loadPending_ok.mp hpending
  obtain ⟨hdoc, hrecord, hact⟩ := loadActive_ok.mp hactive
  exact ⟨request, doc, record, ⟨hstored, hstatus, hexpiry, hdoc, hrecord, hact⟩, henough, hwf,
    processed, request', processGuardians_ok hloop, settleRequest_ok hsettle⟩

/-- What an accepted batch of Ed25519 signatures establishes. -/
structure SignedBatch (host : Host) (env : Env) (s : State) (requestId : ℕ) (signatures : List Signature)
    (publicKeys : List Bytes32) (nonce expirationLedger : ℕ) (request : AccessRequest) (doc : Document)
    (record : VaultRecord) (q : Requests) (a : Grants) : Prop where
  approvable : Approvable env s requestId request doc record
  enough : record.vault.approvalThreshold ≤ signatures.length
  length : signatures.length = publicKeys.length
  distinct : publicKeys.Nodup
  verified : ∀ signed ∈ publicKeys.zip signatures, host.ed25519Verify signed.1
    (thresholdPayload (approvalMessage requestId doc.vaultId) nonce expirationLedger) signed.2 = true
  settles : ∃ recorded, SameBookkeeping s.requests recorded ∧
    q = setRequest recorded requestId { request with status := .Approved } ∧
      a = grantRequest s.grants request doc

theorem approveAccessThreshold_ok {caller : Address} {requestId nonce expirationLedger : ℕ}
    {signatures : List Signature} {publicKeys : List Bytes32} {share : Option Bytes}
    (h : approveAccessThreshold host env s caller requestId signatures publicKeys nonce expirationLedger
      share = .ok ((q, a), logs)) :
    ∃ request doc record, SignedBatch host env s requestId signatures publicKeys nonce expirationLedger
      request doc record q a := by
  simp only [approveAccessThreshold, verifyThresholdSignaturesInternal, bind_ok, requireAuth_ok,
    revertIf_ok, exists_const, pure_ok, not_or, not_lt, not_not, not_exists, not_and,
    Bool.not_eq_false] at h
  obtain ⟨_, request, hpending, ⟨doc, record⟩, hactive, used, ⟨⟨_, henough, hlength⟩, _, _, hdistinct,
    hverified, _⟩, happrove⟩ := h
  obtain ⟨hstored, hstatus, hexpiry⟩ := loadPending_ok.mp hpending
  obtain ⟨hdoc, hrecord, hact⟩ := loadActive_ok.mp hactive
  have hsame := saveShare_bookkeeping { s.requests with usedNonce := used } requestId caller share
  exact ⟨request, doc, record, ⟨hstored, hstatus, hexpiry, hdoc, hrecord, hact⟩, henough, hlength,
    hdistinct, hverified, _, ⟨hsame.counter, hsame.requests, hsame.flags⟩, approveRequest_ok happrove⟩

end ChainGuard.Soroban
