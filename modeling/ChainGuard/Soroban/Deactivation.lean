import ChainGuard.Soroban.AccessFlags
import ChainGuard.Soroban.Bookkeeping

/-! Deactivated vaults. Nothing is added to one any more, and its release state stays as it is, but for
two calls that do not look whether the vault is active: a synced heartbeat, and the upload of
encrypted shares for one of its documents. -/
namespace ChainGuard.Soroban
open Guarded History
set_option autoImplicit false

variable {host : Host} {env : Env} {s s' : State} {v : ℕ} {logs : List Event}
  {hist : List (Transition State Invocation)} {t : Transition State Invocation} {i : Invocation}

/-! ## What a vault has -/

/-- Something that a vault can be given. -/
inductive Holding
  | guardian (g : Address)
  | document (d : ℕ)
  | request (r : ℕ)
  | token (n : ℕ)
  | share (d : ℕ) (g : Address) (share : Bytes)
  | fheShare (d : ℕ) (g : Address) (share : Bytes)
  | access (d : ℕ) (u : Address)

def HasGuardian (s : State) (v : ℕ) (g : Address) : Prop :=
  ∃ record, s.vaults.vaults v = some record ∧ g ∈ record.vault.guardians

def HasRequest (s : State) (v r : ℕ) : Prop :=
  ∃ request, s.requests.requests r = some request ∧ documentVault s request.documentId = some v

def Holds (s : State) (v : ℕ) : Holding → Prop
  | .guardian g => HasGuardian s v g
  | .document d => documentVault s d = some v
  | .request r => HasRequest s v r
  | .token n => s.tokens.tokenVault n = some v
  | .share d g share => documentVault s d = some v ∧ s.documents.gShare d g = some share
  | .fheShare d g share => documentVault s d = some v ∧ s.documents.fheGShare d g = some share
  | .access d u => documentVault s d = some v ∧ s.grants.hasAccess d u = true

def releaseStateOf (s : State) (v : ℕ) : Option VaultReleaseState :=
  (s.vaults.vaults v).map (·.releaseState)

/-- The transition gives the vault nothing, and leaves its release state as it is. -/
def LeavesVault (v : ℕ) (t : Transition State Invocation) : Prop :=
  (∀ x, Holds t.post v x → Holds t.pre v x) ∧ releaseStateOf t.post v = releaseStateOf t.pre v

/-! ## Deactivated vaults -/

def Inactive (s : State) (v : ℕ) : Prop :=
  ∃ record, s.vaults.vaults v = some record ∧ record.vault.isActive = false

theorem Inactive.ne {w : ℕ} {record : VaultRecord} (h : Inactive s v)
    (hw : s.vaults.vaults w = some record) (hactive : record.vault.isActive = true) : v ≠ w := by
  rintro rfl
  obtain ⟨record', hrecord', hoff⟩ := h
  cases hw.symm.trans hrecord'
  rw [hactive] at hoff
  cases hoff

inductive RecordEffect (v : ℕ) (record : VaultRecord) (t : Transition State Invocation) : Prop
  | kept : syncedVault t ≠ some v → t.post.vaults.vaults v = some record → RecordEffect v record t
  | synced (releaseState : VaultReleaseState) : syncedVault t = some v →
      releaseState ≠ record.releaseState →
      t.post.vaults.vaults v = some { record with releaseState } → RecordEffect v record t

theorem Steps.record_effect (h : Steps host s i s') (hok : VaultsOk s.vaults) {record : VaultRecord}
    (hrecord : s.vaults.vaults v = some record) (hoff : record.vault.isActive = false) :
    RecordEffect v record ⟨s, i, s'⟩ := by
  have hinactive : Inactive s v := ⟨record, hrecord, hoff⟩
  generalize hsynced : syncedVault ⟨s, i, s'⟩ = synced
  have hwrite := h.record_write
  rw [hsynced] at hwrite
  cases hwrite with
  | kept hvaults _ =>
    refine .kept (by rw [hsynced]; rintro ⟨⟩) ?_
    show s'.vaults.vaults v = some record
    rw [hvaults, hrecord]
  | created new _ hvaults _ =>
    have hle := hok.counted v record hrecord
    refine .kept (by rw [hsynced]; rintro ⟨⟩) ?_
    show s'.vaults.vaults v = some record
    rw [hvaults, Function.update_of_ne (by omega), hrecord]
  | saved w old new hold hactive hvaults _ _ _ =>
    refine .kept (by rw [hsynced]; rintro ⟨⟩) ?_
    show s'.vaults.vaults v = some record
    rw [hvaults, Function.update_of_ne (hinactive.ne hold hactive), hrecord]
  | synced w old releaseState hold hlater hvaults _ =>
    by_cases hv : v = w
    · subst hv
      cases hrecord.symm.trans hold
      refine .synced releaseState hsynced ?_ ?_
      · rintro rfl
        exact lt_irrefl _ hlater
      · show s'.vaults.vaults v = _
        rw [hvaults, Function.update_self]
    · refine .kept ?_ ?_
      · rw [hsynced]
        exact fun h => hv (Option.some.inj h).symm
      · show s'.vaults.vaults v = some record
        rw [hvaults, Function.update_of_ne hv, hrecord]

/-! ## The documents of a deactivated vault -/

def lastListed (g : Address) (entries : List (Address × Bytes)) : Option Bytes := entries.reverse.lookup g

theorem foldl_shares_apply (m : ℕ → Address → Option Bytes) (entries : List (Address × Bytes)) (d x : ℕ)
    (g : Address) :
    entries.foldl (fun m entry => Mapping.set₂ m d entry.1 (some entry.2)) m x g =
      if x = d then (lastListed g entries).or (m x g) else m x g := by
  induction entries using List.reverseRecOn with
  | nil => exact (ite_self _).symm
  | append_singleton entries entry ih =>
    rw [List.foldl_append, List.foldl_cons, List.foldl_nil, Mapping.set₂_apply, ih, lastListed, lastListed,
      List.reverse_append, List.reverse_singleton, List.singleton_append, List.lookup_cons]
    by_cases hx : x = d
    · by_cases hg : g = entry.1
      · simp [hx, hg]
      · simp [hx, hg, beq_false_of_ne hg]
    · simp [hx]

/-- The encrypted share that a transition stores for a guardian of the document. -/
def savedShare (t : Transition State Invocation) (d : ℕ) (g : Address) : Option Bytes :=
  match t.label.2 with
  | .saveGuardianSharesFhe _ documentId guardiansList sharesFhe =>
    if d = documentId then lastListed g (guardiansList.zip sharesFhe) else none
  | _ => none

structure DocumentKept (v d : ℕ) (t : Transition State Invocation) : Prop where
  vault : documentVault t.pre d = some v
  shares : ∀ g, t.post.documents.gShare d g = t.pre.documents.gShare d g
  fheShares : ∀ g, t.post.documents.fheGShare d g =
    (savedShare t d g).or (t.pre.documents.fheGShare d g)
  access : ∀ u, t.post.grants.hasAccess d u = true → t.pre.grants.hasAccess d u = true

theorem addDocument_kept {uploader : Address} {w d : ℕ} {encryptedMetadata ipfsHash : Bytes}
    {requiredAccess : AccessLevel} {releaseCondition : ReleaseCondition} {guardiansList : List Address}
    {shares : List Bytes} {documents : Documents} {grants : Grants}
    (h : addDocument env s uploader w encryptedMetadata ipfsHash requiredAccess releaseCondition
      guardiansList shares = .ok ((documents, grants), logs)) (hoff : Inactive s v)
    (hd : documentVault { s with documents, grants, logs } d = some v) :
    DocumentKept v d ⟨s, (env, .addDocument uploader w encryptedMetadata ipfsHash requiredAccess
      releaseCondition guardiansList shares), { s with documents, grants, logs }⟩ := by
  simp only [addDocument, bind_ok, requireAuth_ok, assert_ok, loadVaultRecord_ok, exists_const, pure_ok,
    Prod.mk.injEq] at h
  obtain ⟨_, record, hrecord, hactive, _, _, _, ⟨rfl, rfl⟩, _⟩ := h
  have hold : d ≠ s.documents.docCount + 1 := by
    rintro rfl
    simp only [documentVault, Function.update_self, Option.map_some, Option.some.injEq] at hd
    exact hoff.ne hrecord hactive hd.symm
  refine ⟨?_, fun g => ?_, fun g => rfl, fun u hu => ?_⟩
  · simp only [documentVault, Function.update_of_ne hold] at hd
    exact hd
  · exact (foldl_shares_apply ..).trans (if_neg hold)
  · have hsame := Mapping.set₂_elsewhere s.grants.hasAccess (s.documents.docCount + 1) d uploader u true
      fun h => hold h.1
    exact hsame.symm.trans hu

theorem Steps.document_kept (h : Steps host s i s') (hoff : Inactive s v) {d : ℕ}
    (hd : documentVault s' d = some v) : DocumentKept v d ⟨s, i, s'⟩ := by
  cases h.effect with
  | addDocument hadd => exact addDocument_kept hadd hoff hd
  | saveGuardianSharesFhe hsave =>
    simp only [saveGuardianSharesFhe, bind_ok, requireAuth_ok, assert_ok, loadDocument_ok,
      loadVaultRecord_ok, exists_const, pure_ok, Prod.mk.injEq] at hsave
    obtain ⟨_, _, _, _, _, _, _, rfl, _⟩ := hsave
    refine ⟨hd, fun _ => rfl, fun g => ?_, fun _ => id⟩
    simp only [foldl_shares_apply, savedShare]
    split_ifs
    · rfl
    · exact Option.none_or.symm
  | approval hexec =>
    obtain ⟨request, doc, record, happ, houtcome⟩ := execApproval_outcome hexec
    refine ⟨hd, fun _ => rfl, fun _ => rfl, fun u hu => ?_⟩
    cases houtcome with
    | pending _ hgrants =>
      rw [← hgrants]
      exact hu
    | approved _ hhas =>
      -- an approved request is for a document of an active vault
      have hother : d ≠ request.documentId := by
        rintro rfl
        have hvault : documentVault s request.documentId = some v := hd
        rw [documentVault, happ.document] at hvault
        exact hoff.ne happ.vault happ.active (Option.some.inj hvault).symm
      simp only [hhas, Mapping.set₂_other _ _ _ _ _ hother] at hu
      exact hu
  | @grants _ c grants _ hexec =>
    refine ⟨hd, fun _ => rfl, fun _ => rfl, fun u hu => ?_⟩
    have hcleared : ∀ d' target, grants.hasAccess = Mapping.set₂ s.grants.hasAccess d' target false →
        s.grants.hasAccess d u = true := by
      intro d' target hhas
      simp only [hhas, Mapping.set₂_false_iff] at hu
      exact hu.2
    cases c with
    | revokeAccess guardian d' target => exact hcleared _ _ (revokeAccess_ok hexec).2
    | relayRevokeAccess vaultGid d' targetEvmUser target nonce signature recoveryId =>
      exact hcleared _ _ (relayRevokeAccess_ok hexec).2
    | linkCrossChainVault =>
      simp only [execGrants, linkCrossChainVault, bind_ok, requireAuth_ok, assert_ok, loadVaultRecord_ok,
        exists_const, pure_ok, Prod.mk.injEq] at hexec
      obtain ⟨_, record, _, _, _, rfl, _⟩ := hexec
      exact hu
  | _ => exact ⟨hd, fun _ => rfl, fun _ => rfl, fun _ => id⟩

/-! ## Its requests and tokens -/

theorem execApproval_rewrites {c : ApprovalCall} {q : Requests} {a : Grants}
    (h : execApproval host env s c = .ok ((q, a), logs)) :
    ∃ request doc record approvedBy, Approvable env s c.requestId request doc record ∧
      Rewrites s c.requestId request approvedBy q := by
  cases c with
  | approveAccess approver requestId share =>
    obtain ⟨request, doc, record, hone⟩ := approveAccess_ok h
    exact ⟨request, doc, record, _, hone.approvable, hone.rewrites⟩
  | approveAccessThreshold caller requestId signatures publicKeys nonce expirationLedger share =>
    obtain ⟨request, doc, record, hsigned⟩ := approveAccessThreshold_ok h
    exact ⟨request, doc, record, _, hsigned.approvable, hsigned.rewrites⟩
  | approveAccessBLS requestId listed sig aggPk shares =>
    obtain ⟨request, doc, record, hbatch⟩ := approveAccessBLS_ok h
    obtain ⟨approvedBy, hrewrites, _⟩ := hbatch.rewrites
    exact ⟨request, doc, record, approvedBy, hbatch.approvable, hrewrites⟩
  | approveAccessFhe approver requestId fheShare =>
    obtain ⟨request, doc, record, hone, _⟩ := approveAccessFhe_ok h
    exact ⟨request, doc, record, _, hone.approvable, hone.rewrites⟩

theorem Steps.request_kept (h : Steps host s i s') (hoff : Inactive s v) {r : ℕ}
    (hr : HasRequest s' v r) : HasRequest s v r := by
  obtain ⟨request', hstored, hd⟩ := hr
  have hvault := (h.document_kept hoff hd).vault
  cases h.effect with
  | requestAccess hexec =>
    simp only [requestAccess, bind_ok, requireAuth_ok, assert_ok, loadDocument_ok, loadVaultRecord_ok,
      exists_const, pure_ok, Prod.mk.injEq] at hexec
    obtain ⟨_, doc, hdoc, record, hrecord, hactive, _, _, rfl, _⟩ := hexec
    simp only [Function.update_apply] at hstored
    split at hstored
    · cases hstored
      rw [documentVault, hdoc] at hvault
      exact (hoff.ne hrecord hactive (Option.some.inj hvault).symm).elim
    · exact ⟨request', hstored, hvault⟩
  | @approval _ c _ _ _ hexec =>
    obtain ⟨request, doc, record, approvedBy, happ, hrewrites⟩ := execApproval_rewrites hexec
    obtain ⟨status, hrequests⟩ := hrewrites.requests
    simp only [hrequests, Function.update_apply] at hstored
    split at hstored
    · next heq =>
      cases hstored
      rw [heq]
      exact ⟨request, happ.stored, hvault⟩
    · exact ⟨request', hstored, hvault⟩
  | verifyThresholdSignatures hexec =>
    simp only [verifyThresholdSignatures, bind_ok, pure_ok, Prod.mk.injEq] at hexec
    obtain ⟨_, _, rfl, _⟩ := hexec
    exact ⟨request', hstored, hvault⟩
  | _ => exact ⟨request', hstored, hvault⟩

theorem Steps.token_kept (h : Steps host s i s') (hoff : Inactive s v) {n : ℕ}
    (hn : s'.tokens.tokenVault n = some v) : s.tokens.tokenVault n = some v := by
  cases h.effect with
  | @tokens _ c _ _ hexec =>
    cases c with
    | mintAccessToken minter w recipient uri =>
      simp only [execTokens, mintAccessToken, bind_ok, requireAuth_ok, assert_ok, loadVaultRecord_ok,
        exists_const, pure_ok, Prod.mk.injEq] at hexec
      obtain ⟨_, record, hrecord, hactive, _, rfl, _⟩ := hexec
      simp only [incrementBalances, Function.update_apply] at hn
      split at hn
      · exact (hoff.ne hrecord hactive (Option.some.inj hn).symm).elim
      · exact hn
    | burnAccessToken owner tokenId =>
      simp only [execTokens, burnAccessToken, bind_ok, requireAuth_ok, exists_const, pure_ok,
        Prod.mk.injEq] at hexec
      obtain ⟨_, _, _, rfl, _⟩ := hexec
      simp only [decrementBalances, Function.update_apply] at hn
      split at hn
      · cases hn
      · exact hn
    | transfer source recipient tokenId =>
      simp only [execTokens, transfer, bind_ok, requireAuth_ok, exists_const, pure_ok,
        Prod.mk.injEq] at hexec
      obtain ⟨_, _, _, rfl, _⟩ := hexec
      exact hn
  | _ => exact hn

/-! ## What a transition gives a deactivated vault -/

/-- The call syncs a heartbeat of the vault, or saves a share that is not yet stored for one of its
documents. -/
def Reopens (v : ℕ) (t : Transition State Invocation) : Prop :=
  syncedVault t = some v ∨ ∃ d g share, documentVault t.pre d = some v ∧
    savedShare t d g = some share ∧ t.pre.documents.fheGShare d g ≠ some share

theorem RecordEffect.inactive {record : VaultRecord} (h : RecordEffect v record t)
    (hoff : record.vault.isActive = false) : Inactive t.post v := by
  cases h with
  | kept _ hpost => exact ⟨record, hpost, hoff⟩
  | synced releaseState _ _ hpost => exact ⟨{ record with releaseState }, hpost, hoff⟩

theorem RecordEffect.guardians {record : VaultRecord} (h : RecordEffect v record t) {g : Address}
    (hg : HasGuardian t.post v g) : g ∈ record.vault.guardians := by
  obtain ⟨record', hrecord', hmem⟩ := hg
  cases h with
  | kept _ hpost =>
    cases hpost.symm.trans hrecord'
    exact hmem
  | synced _ _ _ hpost =>
    cases hpost.symm.trans hrecord'
    exact hmem

theorem RecordEffect.releaseState_iff {record : VaultRecord} (h : RecordEffect v record t) :
    releaseStateOf t.post v = some record.releaseState ↔ syncedVault t ≠ some v := by
  cases h with
  | kept hnot hpost =>
    rw [releaseStateOf, hpost]
    exact iff_of_true rfl hnot
  | synced releaseState hsynced hnew hpost =>
    rw [releaseStateOf, hpost]
    exact iff_of_false (fun h => hnew (Option.some.inj h)) (fun h => h hsynced)

theorem Steps.holds_iff (h : Steps host s i s') (hok : VaultsOk s.vaults)
    (hdocs : DocumentsCounted s.documents) (hoff : Inactive s v) :
    (∀ x, Holds s' v x → Holds s v x) ↔ ∀ d g share, documentVault s d = some v →
      savedShare ⟨s, i, s'⟩ d g = some share → s.documents.fheGShare d g = some share := by
  constructor
  · intro hholds d g share hd hsaved
    have hd' : documentVault s' d = some v := by
      obtain ⟨doc, hdoc, hvault⟩ := Option.map_eq_some_iff.mp hd
      rw [documentVault, h.document_effect.kept_doc hdocs hdoc, Option.map_some, hvault]
    have hpost : s'.documents.fheGShare d g = _ := (h.document_kept hoff hd').fheShares g
    rw [hsaved, Option.some_or] at hpost
    exact (hholds (.fheShare d g share) ⟨hd', hpost⟩).2
  · intro hsaved x hx
    cases x with
    | guardian g =>
      obtain ⟨record, hrecord, hinactive⟩ := hoff
      exact ⟨record, hrecord, (h.record_effect hok hrecord hinactive).guardians hx⟩
    | document d => exact (h.document_kept hoff hx).vault
    | request r => exact h.request_kept hoff hx
    | token n => exact h.token_kept hoff hx
    | share d g share =>
      have hkept := h.document_kept hoff hx.1
      exact ⟨hkept.vault, (hkept.shares g).symm.trans hx.2⟩
    | fheShare d g share =>
      have hkept := h.document_kept hoff hx.1
      have hpost : (savedShare ⟨s, i, s'⟩ d g).or (s.documents.fheGShare d g) = some share :=
        (hkept.fheShares g).symm.trans hx.2
      refine ⟨hkept.vault, ?_⟩
      cases hs : savedShare ⟨s, i, s'⟩ d g with
      | none =>
        rw [hs, Option.none_or] at hpost
        exact hpost
      | some b =>
        rw [hs, Option.some_or] at hpost
        exact hpost ▸ hsaved d g b hkept.vault hs
    | access d u =>
      have hkept := h.document_kept hoff hx.1
      exact ⟨hkept.vault, hkept.access u hx.2⟩

theorem Steps.leavesVault_iff (h : Steps host s i s') (hok : VaultsOk s.vaults)
    (hdocs : DocumentsCounted s.documents) (hoff : Inactive s v) :
    LeavesVault v ⟨s, i, s'⟩ ↔ ¬ Reopens v ⟨s, i, s'⟩ := by
  obtain ⟨record, hrecord, hinactive⟩ := hoff
  have hstate : releaseStateOf s v = some record.releaseState := by rw [releaseStateOf, hrecord]; rfl
  have heffect := (h.record_effect hok hrecord hinactive).releaseState_iff
  simp only [LeavesVault, Reopens, hstate, heffect, h.holds_iff hok hdocs ⟨record, hrecord, hinactive⟩,
    not_or, not_exists, not_and, not_not, ne_eq]
  exact and_comm

/-! ## Runs -/

def deactivatedVault (t : Transition State Invocation) : Option ℕ :=
  match t.label.2 with
  | .vaults (.deactivateVault _ vaultId) => some vaultId
  | _ => none

theorem Steps.deactivated (h : Steps host s i s') (hv : deactivatedVault ⟨s, i, s'⟩ = some v) :
    Inactive s' v := by
  cases h.effect with
  | @vaults _ c _ _ hexec =>
    cases c with
    | deactivateVault owner w =>
      cases hv
      simp only [execVaults, deactivateVault, bind_ok, requireAuth_ok, assert_ok, loadVaultRecord_ok,
        exists_const, pure_ok, Prod.mk.injEq] at hexec
      obtain ⟨_, record, _, _, _, rfl, _⟩ := hexec
      exact ⟨_, Function.update_self .., rfl⟩
    | _ => cases hv
  | _ => cases hv

theorem StellarRun.inactive (h : StellarRun host hist s) (hmem : ∃ t ∈ hist, deactivatedVault t = some v) :
    Inactive s v := by
  refine h.relates (R := fun hist s => (∃ t ∈ hist, deactivatedVault t = some v) → Inactive s v) ?_ ?_ hmem
  · rintro s _ ⟨t, ht, _⟩
    cases ht
  · rintro hist s i s' hr ih hstep ⟨t, ht, hv⟩
    rcases List.mem_cons.mp ht with rfl | ht
    · exact hstep.deactivated hv
    · obtain ⟨record, hrecord, hoff⟩ := ih ⟨t, ht, hv⟩
      exact (hstep.record_effect (vaultsOk hr) hrecord hoff).inactive hoff

/-- After its deactivation a vault is given nothing and keeps its release state in exactly the runs
without a synced heartbeat of it and without a new encrypted share for one of its documents. -/
theorem deactivation_final_iff {later earlier : List (Transition State Invocation)}
    (h : StellarRun host (later ++ t :: earlier) s) (ht : deactivatedVault t = some v) :
    (∀ t' ∈ later, LeavesVault v t') ↔ ∀ t' ∈ later, ¬ Reopens v t' := by
  refine forall₂_congr fun t' ht' => ?_
  obtain ⟨after, before, rfl⟩ := List.append_of_mem ht'
  rw [List.append_assoc, List.cons_append] at h
  obtain ⟨hrun, hstep⟩ := h.suffix_step (List.suffix_append after _)
  have hoff : Inactive t'.pre v := StellarRun.inactive hrun ⟨t, by simp, ht⟩
  exact Steps.leavesVault_iff hstep (vaultsOk hrun) (documentsCounted hrun) hoff

/-- Guardian 1 binds a heartbeat to its vault and deactivates it. -/
def deactivatedRun : List Invocation :=
  openedVault 1 ++
    [(invokedBy [acct 1] 103, .release (.bindCrossChainHeartbeat (acct 1) 1 5 1 (acct 3))),
      (invokedBy [acct 1] 104, .vaults (.deactivateVault (acct 1) 1))]

/-- The last call, of `revoke_access`, comes right after the deactivation. -/
def revokedNext : List (Transition State Invocation) → Bool
  | ⟨_, (_, .grants _), _⟩ :: t :: _ => decide (deactivatedVault t = some 1)
  | _ => false

/-- A revocation after the deactivation. -/
theorem deactivation_final_revoked : ∃ revocation t earlier s,
    StellarRun localHost ([revocation] ++ t :: earlier) s ∧ deactivatedVault t = some 1 ∧
      LeavesVault 1 revocation := by
  obtain ⟨hist, s, hrun, hend⟩ := exists_run localHost
    (deactivatedRun ++ [(invokedBy [acct 2] 105, .grants (.revokeAccess (acct 2) 1 (acct 1)))])
    (fun hist _ => revokedNext hist) (by decide +kernel)
  unfold revokedNext at hend
  split at hend
  · next pre env c post t earlier =>
    have ht := of_decide_eq_true hend
    refine ⟨_, t, earlier, s, hrun, ht, (deactivation_final_iff hrun ht).mpr ?_ _ (List.mem_singleton_self _)⟩
    intro t' ht'
    cases List.mem_singleton.mp ht'
    rintro (⟨⟨⟩⟩ | ⟨d, g, share, _, ⟨⟩, _⟩)
  · cases hend

/-- After the deactivation a share is stored, then the proof of life is set. -/
def givenNext : List (Transition State Invocation) → Bool
  | heartbeat :: upload :: t :: _ => decide (deactivatedVault t = some 1 ∧
      (documentVault upload.post 1 = some 1 ∧ upload.post.documents.fheGShare 1 (acct 2) = some [9]) ∧
      upload.pre.documents.fheGShare 1 (acct 2) = none ∧
      (releaseStateOf heartbeat.post 1).map (·.lastProofOfLife) ≠
        (releaseStateOf heartbeat.pre 1).map (·.lastProofOfLife))
  | _ => false

/-- After the deactivation guardian 1 stores an encrypted share, and a heartbeat is synced. -/
theorem deactivation_not_final : ∃ heartbeat upload t earlier s,
    StellarRun localHost ([heartbeat, upload] ++ t :: earlier) s ∧ deactivatedVault t = some 1 ∧
      (Holds upload.post 1 (.fheShare 1 (acct 2) [9]) ∧ ¬ Holds upload.pre 1 (.fheShare 1 (acct 2) [9])) ∧
      releaseStateOf heartbeat.post 1 ≠ releaseStateOf heartbeat.pre 1 ∧
      ¬ LeavesVault 1 upload ∧ ¬ LeavesVault 1 heartbeat := by
  obtain ⟨hist, s, hrun, hend⟩ := exists_run localHost
    (deactivatedRun ++
      [(invokedBy [acct 1] 105, .saveGuardianSharesFhe (acct 1) 1 [acct 2] [[9]]),
        (invokedBy [acct 3] 106, .release (.syncProofOfLife (acct 3) 1 7 5 1 200 0 0))])
    (fun hist _ => givenNext hist) (by decide +kernel)
  unfold givenNext at hend
  split at hend
  · next heartbeat upload t earlier =>
    obtain ⟨ht, hstored, hmissing, hlife⟩ := of_decide_eq_true hend
    have hnew : ¬ Holds upload.pre 1 (.fheShare 1 (acct 2) [9]) := fun h => by
      cases hmissing.symm.trans h.2
    have hstate : releaseStateOf heartbeat.post 1 ≠ releaseStateOf heartbeat.pre 1 := fun h =>
      hlife (congrArg _ h)
    exact ⟨heartbeat, upload, t, earlier, s, hrun, ht, ⟨hstored, hnew⟩, hstate,
      fun h => hnew (h.1 _ hstored), fun h => hstate h.2⟩
  · cases hend

end ChainGuard.Soroban
