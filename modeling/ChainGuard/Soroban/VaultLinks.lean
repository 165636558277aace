import ChainGuard.Soroban.AccessFlags

/-! The links of vaults to their EVM counterparts. A link is written once for a gid, by the creator of
some vault, and names the revoker of that vault; the creator of a vault can link a gid as long as nobody
has. -/
namespace ChainGuard.Soroban
open Guarded History
set_option autoImplicit false

variable {host : Host} {env : Env} {s s' : State} {q : Requests} {a : Grants} {logs : List Event}
  {hist later : List (Transition State Invocation)} {t : Transition State Invocation}

/-! ## Links and relayed revocations -/

/-- A link: the gid, the vault it is routed to and the revoker that the vault gets. -/
structure VaultLink where
  vaultGid : Bytes32
  vaultId : ℕ
  evmRevoker : EvmAddress

/-- What a revoker signs. -/
structure Revocation where
  vaultGid : Bytes32
  documentId : ℕ
  targetEvmUser : EvmAddress
  targetStellarUser : Address
  nonce : ℕ

def Revocation.payload (host : Host) (m : Revocation) : Bytes :=
  revocationPayload host m.vaultGid m.documentId m.targetEvmUser m.targetStellarUser m.nonce

def Revocation.SignedBy (host : Host) (m : Revocation) (signature : Signature) (recoveryId : ℕ)
    (revoker : EvmAddress) : Prop :=
  ∃ key, host.secp256k1Recover (ethSignedMessage host (host.keccak256 (m.payload host))) signature
    recoveryId = some key ∧ evmAddressOf (host.keccak256 ((key.drop 1).take 64)) = revoker

def linked (t : Transition State Invocation) : Option VaultLink :=
  match t.label.2 with
  | .grants (.linkCrossChainVault _ vaultId vaultGid evmRevoker) => some ⟨vaultGid, vaultId, evmRevoker⟩
  | _ => none

def relayed (t : Transition State Invocation) : Option (Revocation × Signature × ℕ) :=
  match t.label.2 with
  | .grants (.relayRevokeAccess gid documentId evmUser stellarUser nonce signature recoveryId) =>
    some (⟨gid, documentId, evmUser, stellarUser, nonce⟩, signature, recoveryId)
  | _ => none

/-! ## What a transition does to them -/

structure SameLinks (a a' : Grants) : Prop where
  vaultGid : a'.vaultGid = a.vaultGid
  crossChainRevoker : a'.crossChainRevoker = a.crossChainRevoker
  revocationNonce : a'.revocationNonce = a.revocationNonce

/-- What an accepted link requires and writes. -/
structure Links (env : Env) (s : State) (owner : Address) (link : VaultLink) (a : Grants) : Prop where
  authorized : owner ∈ env.authorized
  record : ∃ record, s.vaults.vaults link.vaultId = some record ∧ record.vault.creator = owner
  unlinked : s.grants.vaultGid link.vaultGid = none
  vaultGid : a.vaultGid = Function.update s.grants.vaultGid link.vaultGid (some link.vaultId)
  crossChainRevoker :
    a.crossChainRevoker = Function.update s.grants.crossChainRevoker link.vaultId (some link.evmRevoker)
  revocationNonce : a.revocationNonce = s.grants.revocationNonce

/-- What an accepted relay requires and writes. -/
structure Relays (host : Host) (s : State) (m : Revocation) (signature : Signature) (recoveryId : ℕ)
    (a : Grants) : Prop where
  routed : ∃ doc revoker, s.grants.vaultGid m.vaultGid = some doc.vaultId ∧
    s.documents.docs m.documentId = some doc ∧ s.grants.crossChainRevoker doc.vaultId = some revoker ∧
    m.SignedBy host signature recoveryId revoker
  fresh : s.grants.revocationNonce m.vaultGid m.documentId m.targetStellarUser < m.nonce
  vaultGid : a.vaultGid = s.grants.vaultGid
  crossChainRevoker : a.crossChainRevoker = s.grants.crossChainRevoker
  revocationNonce : a.revocationNonce = Mapping.set₃ s.grants.revocationNonce m.vaultGid m.documentId
    m.targetStellarUser m.nonce

theorem Settles.sameLinks {requestId : ℕ} {request : AccessRequest} {doc : Document} {record : VaultRecord}
    {q' : Requests} (h : Settles s q requestId request doc record q' a) : SameLinks s.grants a := by
  cases h with
  | below _ => exact ⟨rfl, rfl, rfl⟩
  | reached _ => exact ⟨rfl, rfl, rfl⟩

theorem execApproval_sameLinks {c : ApprovalCall} (h : execApproval host env s c = .ok ((q, a), logs)) :
    SameLinks s.grants a := by
  cases c with
  | approveAccess approver requestId share =>
    obtain ⟨request, doc, record, hone⟩ := approveAccess_ok h
    obtain ⟨recorded, _, hsettles⟩ := hone.settles
    exact hsettles.sameLinks
  | approveAccessThreshold caller requestId signatures publicKeys nonce expirationLedger share =>
    obtain ⟨request, doc, record, hsigned⟩ := approveAccessThreshold_ok h
    obtain ⟨recorded, _, _, rfl⟩ := hsigned.settles
    exact ⟨rfl, rfl, rfl⟩
  | approveAccessBLS requestId listed sig aggPk shares =>
    obtain ⟨request, doc, record, hbatch⟩ := approveAccessBLS_ok h
    obtain ⟨processed, request', _, hsettles⟩ := hbatch.settles
    exact hsettles.sameLinks
  | approveAccessFhe approver requestId fheShare =>
    obtain ⟨request, doc, record, hone, _⟩ := approveAccessFhe_ok h
    obtain ⟨recorded, _, hsettles⟩ := hone.settles
    exact hsettles.sameLinks

theorem linkCrossChainVault_ok {owner : Address} {link : VaultLink}
    (h : linkCrossChainVault env s owner link.vaultId link.vaultGid link.evmRevoker = .ok (a, logs)) :
    Links env s owner link a := by
  simp only [linkCrossChainVault, bind_ok, requireAuth_ok, assert_ok, loadVaultRecord_ok, exists_const,
    pure_ok, Prod.mk.injEq, Option.isNone_iff_eq_none] at h
  obtain ⟨hauth, record, hrecord, hcreator, hunlinked, rfl, _⟩ := h
  exact ⟨hauth, ⟨record, hrecord, hcreator⟩, hunlinked, rfl, rfl, rfl⟩

theorem recoverEthAddress_signedBy {m : Revocation} {signature : Signature} {recoveryId : ℕ}
    {revoker : EvmAddress} (h : recoverEthAddress host m.vaultGid m.documentId m.targetEvmUser
      m.targetStellarUser m.nonce signature recoveryId = .ok revoker) :
    m.SignedBy host signature recoveryId revoker := by
  unfold recoverEthAddress at h
  dsimp only at h
  split at h
  · cases h
  · next key hkey => exact ⟨key, hkey, (pure_ok _ _).mp h⟩

theorem relayRevokeAccess_relays {m : Revocation} {signature : Signature} {recoveryId : ℕ}
    (h : relayRevokeAccess host s m.vaultGid m.documentId m.targetEvmUser m.targetStellarUser m.nonce
      signature recoveryId = .ok (a, logs)) : Relays host s m signature recoveryId a := by
  simp only [relayRevokeAccess, bind_ok, assert_ok, expect_ok, loadDocument_ok, exists_const,
    pure_ok, Prod.mk.injEq] at h
  obtain ⟨_, hgid, doc, hdoc, rfl, hfresh, revoker, hrevoker, _, hrecovered, rfl, rfl, _⟩ := h
  exact ⟨⟨doc, _, hgid, hdoc, hrevoker, recoverEthAddress_signedBy hrecovered⟩, hfresh, rfl, rfl, rfl⟩

inductive LinkEffect (host : Host) (t : Transition State Invocation) : Prop
  | kept : linked t = none → relayed t = none → SameLinks t.pre.grants t.post.grants → LinkEffect host t
  | linked (owner : Address) (link : VaultLink) : linked t = some link → relayed t = none →
      Links t.label.1 t.pre owner link t.post.grants → LinkEffect host t
  | relayed (m : Revocation) (signature : Signature) (recoveryId : ℕ) : linked t = none →
      relayed t = some (m, signature, recoveryId) →
      Relays host t.pre m signature recoveryId t.post.grants → LinkEffect host t

theorem Steps.link_effect {i : Invocation} (h : Steps host s i s') : LinkEffect host ⟨s, i, s'⟩ := by
  cases h.effect with
  | addDocument hadd =>
    simp only [addDocument, bind_ok, requireAuth_ok, assert_ok, loadVaultRecord_ok, exists_const, pure_ok,
      Prod.mk.injEq] at hadd
    obtain ⟨_, record, _, _, _, _, _, ⟨rfl, rfl⟩, _⟩ := hadd
    exact .kept rfl rfl ⟨rfl, rfl, rfl⟩
  | approval hexec => exact .kept rfl rfl (execApproval_sameLinks hexec)
  | @grants env c grants logs hexec =>
    cases c with
    | revokeAccess guardian d target =>
      simp only [execGrants, revokeAccess, bind_ok, requireAuth_ok, assert_ok, loadDocument_ok,
        loadVaultRecord_ok, exists_const, pure_ok] at hexec
      obtain ⟨_, doc, _, record, _, _, hexec⟩ := hexec
      obtain ⟨rfl, _⟩ := Prod.mk.inj hexec
      exact .kept rfl rfl ⟨rfl, rfl, rfl⟩
    | linkCrossChainVault owner vaultId vaultGid evmRevoker =>
      exact .linked owner ⟨vaultGid, vaultId, evmRevoker⟩ rfl rfl (linkCrossChainVault_ok hexec)
    | relayRevokeAccess vaultGid documentId targetEvmUser targetStellarUser nonce signature recoveryId =>
      exact .relayed ⟨vaultGid, documentId, targetEvmUser, targetStellarUser, nonce⟩ signature recoveryId
        rfl rfl (relayRevokeAccess_relays hexec)
  | _ => exact .kept rfl rfl ⟨rfl, rfl, rfl⟩

/-! ## Routing -/

def LinksGid (gid : Bytes32) (t : Transition State Invocation) : Prop :=
  ∃ link, linked t = some link ∧ link.vaultGid = gid

theorem routed_iff (h : StellarRun host hist s) (gid : Bytes32) (v : ℕ) :
    s.grants.vaultGid gid = some v ↔
      ∃ t ∈ hist, ∃ link, linked t = some link ∧ link.vaultGid = gid ∧ link.vaultId = v := by
  refine h.relates (R := fun hist s => s.grants.vaultGid gid = some v ↔
    ∃ t ∈ hist, ∃ link, linked t = some link ∧ link.vaultGid = gid ∧ link.vaultId = v) ?_ ?_
  · rintro s rfl
    simp
  · intro hist s i s' _ ih hstep
    rw [List.exists_mem_cons_iff]
    cases hstep.link_effect with
    | kept hlinked _ hsame =>
      rw [hsame.vaultGid, hlinked, ih]
      simp
    | relayed m signature recoveryId hlinked _ hrelays =>
      rw [hrelays.vaultGid, hlinked, ih]
      simp
    | linked owner link hlinked _ hlinks =>
      rw [hlinks.vaultGid, hlinked, Function.update_apply]
      have hunlinked := hlinks.unlinked
      dsimp only at hunlinked
      by_cases hgid : gid = link.vaultGid
      · subst hgid
        have hnone : ¬ ∃ t ∈ hist, ∃ link', linked t = some link' ∧ link'.vaultGid = link.vaultGid ∧
            link'.vaultId = v := by
          rw [← ih, hunlinked]
          rintro ⟨⟩
        simp [hnone]
      · rw [if_neg hgid, ih]
        simp [Ne.symm hgid]

theorem unlinked_iff (h : StellarRun host hist s) (gid : Bytes32) :
    s.grants.vaultGid gid = none ↔ ∀ t ∈ hist, ¬ LinksGid gid t := by
  rw [Option.eq_none_iff_forall_ne_some]
  constructor
  · rintro hnone t ht ⟨link, hlink, rfl⟩
    exact hnone link.vaultId ((routed_iff h _ _).mpr ⟨t, ht, link, hlink, rfl, rfl⟩)
  · intro hnone v hv
    obtain ⟨t, ht, link, hlink, hgid, _⟩ := (routed_iff h _ _).mp hv
    exact hnone t ht ⟨link, hlink, hgid⟩

/-! ## Creators -/

def creatorOf (v : Vaults) (w : ℕ) : Option Address := (v.vaults w).map (·.vault.creator)

theorem creatorOf_resave {v v' : Vaults} {w x : ℕ} {record record' : VaultRecord}
    (hrecord : v.vaults w = some record) (hsaved : v'.vaults = Function.update v.vaults w (some record'))
    (hsame : record'.vault.creator = record.vault.creator) : creatorOf v' x = creatorOf v x := by
  rw [creatorOf, creatorOf, hsaved, Function.update_apply]
  split
  · next hx => rw [hx, hrecord, Option.map_some, Option.map_some, hsame]
  · rfl

theorem execVaults_creator {v v' : Vaults} {c : VaultCall} (h : execVaults env v c = .ok (v', logs))
    (hok : VaultsOk v) {w : ℕ} {creator : Address} (hw : creatorOf v w = some creator) :
    creatorOf v' w = some creator := by
  cases c with
  | createVault creator' name description guardians approvalThreshold =>
    obtain ⟨_, _, _, hsaved, _⟩ := createVault_ok h
    obtain ⟨record, hrecord, _⟩ := Option.map_eq_some_iff.mp hw
    have hle := hok.counted w record hrecord
    rw [creatorOf, hsaved, Function.update_of_ne (by omega)]
    exact hw
  | acceptGuardianInvite guardian vaultId =>
    obtain ⟨record, hrecord, _, hsaved, _⟩ := acceptGuardianInvite_ok h
    rw [creatorOf_resave hrecord hsaved rfl, hw]
  | registerGuardianBLSKey guardian vaultId blsPublicKey proofOfPossession =>
    rw [creatorOf, (registerGuardianBLSKey_ok h).1]
    exact hw
  | setAccessRegistry owner vaultId registry =>
    rw [creatorOf, (setAccessRegistry_ok h).1]
    exact hw
  | deactivateVault owner vaultId =>
    obtain ⟨record, hrecord, _, rfl⟩ := deactivateVault_ok h
    have hsame : creatorOf (saveVaultRecord v vaultId
        { record with vault := { record.vault with isActive := false } }) w = creatorOf v w := by
      apply creatorOf_resave hrecord
      · rfl
      · rfl
    rw [hsame, hw]

theorem execRelease_creator {v v' : Vaults} {r r' : Release} {c : ReleaseCall}
    (h : execRelease host env v r c = .ok ((v', r'), logs)) (w : ℕ) : creatorOf v' w = creatorOf v w := by
  cases c with
  | proveLife owner vaultId =>
    obtain ⟨record, hrecord, _, rfl, _⟩ := proveLife_ok h
    exact creatorOf_resave hrecord rfl rfl
  | proveLifeByKeeper keeper vaultId =>
    obtain ⟨record, hrecord, _, rfl, _⟩ := proveLifeByKeeper_ok h
    exact creatorOf_resave hrecord rfl rfl
  | syncProofOfLife relayer vaultId evmVaultId gidHash evmOwner timestamp signature recoveryId =>
    obtain ⟨record, hrecord, _, rfl, _⟩ := syncProofOfLife_ok h
    exact creatorOf_resave hrecord rfl rfl
  | configureVaultRelease owner vaultId inactivityPeriod =>
    obtain ⟨record, hrecord, _, rfl, _⟩ := configureVaultRelease_ok h
    exact creatorOf_resave hrecord rfl rfl
  | setEmergencyMode owner vaultId enabled =>
    obtain ⟨record, hrecord, _, rfl, _⟩ := setEmergencyMode_ok h
    exact creatorOf_resave hrecord rfl rfl
  | authorizeKeeper owner vaultId keeper expiresAt => rw [(authorizeKeeper_ok h).1]
  | revokeKeeper owner vaultId => rw [(revokeKeeper_ok h).1]
  | bindCrossChainHeartbeat owner vaultId gidHash evmOwner relayer =>
    rw [(bindCrossChainHeartbeat_ok h).1]
  | setEmergencyJitterWindow owner vaultId jitterWindow => rw [(setEmergencyJitterWindow_ok h).1]
  | fulfillEmergencyUnlockDelay vaultId => rw [(fulfillEmergencyUnlockDelay_ok h).1]

theorem Steps.creator_kept {i : Invocation} (h : Steps host s i s') (hok : VaultsOk s.vaults) {w : ℕ}
    {creator : Address} (hw : creatorOf s.vaults w = some creator) :
    creatorOf s'.vaults w = some creator := by
  cases h.effect with
  | vaults hexec => exact execVaults_creator hexec hok hw
  | release hexec =>
    rw [← hw]
    exact execRelease_creator hexec w
  | _ => exact hw

theorem creator_kept (h : StellarRun host hist s) {w : ℕ} {creator : Address}
    (hw : creatorOf s.vaults w = some creator) (hlater : RunFrom (Steps host) s later s') :
    creatorOf s'.vaults w = some creator := by
  induction hlater with
  | start heq =>
    rw [← heq]
    exact hw
  | @next later mid s' i hrun hstep ih => exact hstep.creator_kept (vaultsOk (h.extend hrun)) ih

/-! ## Squatting -/

/-- The creator's call of `link_cross_chain_vault`. -/
def linkCall (creator : Address) (v : ℕ) (gid : Bytes32) (revoker : EvmAddress) : Call :=
  .grants (.linkCrossChainVault creator v gid revoker)

theorem links_iff {creator : Address} {v : ℕ} {gid : Bytes32} {revoker : EvmAddress}
    (hv : creatorOf s.vaults v = some creator) (hauth : creator ∈ env.authorized) :
    (∃ s', Steps host s (env, linkCall creator v gid revoker) s') ↔ s.grants.vaultGid gid = none := by
  obtain ⟨record, hrecord, hcreator⟩ := Option.map_eq_some_iff.mp hv
  constructor
  · rintro ⟨s', hstep⟩
    simp only [Steps, exec, linkCall, execGrants, bind_ok, pure_ok] at hstep
    obtain ⟨⟨a, logs⟩, hlink, _⟩ := hstep
    have hlinks : Links env s creator ⟨gid, v, revoker⟩ a := linkCrossChainVault_ok hlink
    exact hlinks.unlinked
  · intro hnone
    have hopen : (s.grants.vaultGid gid).isNone = true := by rw [hnone]; rfl
    simp only [Steps, exec, linkCall, execGrants, linkCrossChainVault, bind_ok, requireAuth_ok, assert_ok,
      loadVaultRecord_ok, exists_const, pure_ok]
    exact ⟨_, _, ⟨hauth, record, hrecord, hcreator, hopen, rfl⟩, rfl⟩

/-- Whatever is called in between, by other accounts or not, the creator of a vault can link a gid to it
exactly when no accepted call has linked that gid to any vault. -/
theorem gid_linkable_iff (h : StellarRun host hist s) {v : ℕ} {creator : Address}
    (hv : creatorOf s.vaults v = some creator) (gid : Bytes32)
    (hlater : RunFrom (Steps host) s later s') (revoker : EvmAddress) (hauth : creator ∈ env.authorized) :
    (∃ s'', Steps host s' (env, linkCall creator v gid revoker) s'') ↔
      ∀ t ∈ later ++ hist, ¬ LinksGid gid t := by
  rw [links_iff (creator_kept h hv hlater) hauth]
  exact unlinked_iff (h.extend hlater) gid

/-- Account 1 has vault 1 and account 8 has vault 2. -/
def twoCreators : List Invocation :=
  [(invokedBy [acct 1] 100, .vaults (.createVault (acct 1) (ascii "vault") [] [acct 2] 1)),
    (invokedBy [acct 8] 101, .vaults (.createVault (acct 8) (ascii "other") [] [acct 9] 1))]

/-- Account 8 links another gid in between. -/
theorem gid_linkable_other : ∃ hist s later s', StellarRun localHost hist s ∧
    RunFrom (Steps localHost) s later s' ∧ (later ≠ [] ∧ ∀ t ∈ later, acct 1 ∉ t.label.1.authorized) ∧
    ∃ s'', Steps localHost s' (invokedBy [acct 1] 103, linkCall (acct 1) 1 7 0xe) s'' := by
  obtain ⟨hist, s, hrun, hend⟩ := exists_run localHost twoCreators
    (fun hist s => decide (creatorOf s.vaults 1 = some (acct 1) ∧ ∀ t ∈ hist, (linked t).isNone = true) &&
      endsIn (invoke localHost) s [(invokedBy [acct 8] 102, linkCall (acct 8) 2 6 0xf)]
        (fun later _ => decide ((∀ t ∈ later, acct 1 ∉ t.label.1.authorized) ∧ later ≠ [] ∧
          ∀ t ∈ later, (linked t).map (·.vaultGid) = some 6))) (by decide +kernel)
  obtain ⟨hstart, hend⟩ := (Bool.and_eq_true _ _).mp hend
  obtain ⟨hcreator, hnone⟩ := of_decide_eq_true hstart
  obtain ⟨later, s', hlater, hends⟩ := exists_runFrom_of_endsIn hend
  obtain ⟨hothers, hsome, hsix⟩ := of_decide_eq_true hends
  refine ⟨hist, s, later, s', hrun, hlater, ⟨hsome, hothers⟩, ?_⟩
  refine (gid_linkable_iff hrun hcreator 7 hlater 0xe (by decide)).mpr ?_
  rintro t ht ⟨link, hlink, hgid⟩
  rcases List.mem_append.mp ht with ht | ht
  · have hsix := hsix t ht
    rw [hlink, Option.map_some, hgid] at hsix
    exact absurd hsix (by decide)
  · have hnone := hnone t ht
    rw [hlink] at hnone
    cases hnone

/-- Account 8 links the gid of account 1's counterpart to its own vault: the link of account 1, which
would have succeeded before, fails. -/
theorem gid_squatted : ∃ hist s later s', StellarRun localHost hist s ∧
    RunFrom (Steps localHost) s later s' ∧ creatorOf s.vaults 1 = some (acct 1) ∧
    (∀ t ∈ hist, ¬ LinksGid 7 t) ∧ (∀ t ∈ later, acct 1 ∉ t.label.1.authorized) ∧
    ∀ env revoker, acct 1 ∈ env.authorized →
      (∃ s'', Steps localHost s (env, linkCall (acct 1) 1 7 revoker) s'') ∧
      ¬ ∃ s'', Steps localHost s' (env, linkCall (acct 1) 1 7 revoker) s'' := by
  obtain ⟨hist, s, hrun, hend⟩ := exists_run localHost twoCreators
    (fun hist s => decide (creatorOf s.vaults 1 = some (acct 1) ∧ ∀ t ∈ hist, (linked t).isNone = true) &&
      endsIn (invoke localHost) s [(invokedBy [acct 8] 102, linkCall (acct 8) 2 7 0xf)]
        (fun later s' => decide ((∀ t ∈ later, acct 1 ∉ t.label.1.authorized) ∧
          creatorOf s'.vaults 1 = some (acct 1) ∧ s'.grants.vaultGid 7 = some 2))) (by decide +kernel)
  obtain ⟨hstart, hend⟩ := (Bool.and_eq_true _ _).mp hend
  obtain ⟨hcreator, hnone⟩ := of_decide_eq_true hstart
  obtain ⟨later, s', hlater, hends⟩ := exists_runFrom_of_endsIn hend
  obtain ⟨hothers, hcreator', htaken⟩ := of_decide_eq_true hends
  have hfree : ∀ t ∈ hist, ¬ LinksGid 7 t := by
    rintro t ht ⟨link, hlink, _⟩
    have hnone := hnone t ht
    rw [hlink] at hnone
    cases hnone
  refine ⟨hist, s, later, s', hrun, hlater, hcreator, hfree, hothers, fun env revoker hauth => ⟨?_, ?_⟩⟩
  · exact (links_iff hcreator hauth).mpr ((unlinked_iff hrun 7).mpr hfree)
  · rw [links_iff hcreator' hauth, htaken]
    rintro ⟨⟩

end ChainGuard.Soroban
