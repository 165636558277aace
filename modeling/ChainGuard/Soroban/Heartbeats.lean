import ChainGuard.Soroban.Approvals

/-! Proofs of life. A heartbeat signed on the EVM side is checked against the hash of the whole
recovered key, unlike a relayed revocation; and it may date a proof of life up to five minutes
ahead, which a later proof by the owner or the keeper takes back. -/
namespace ChainGuard.Soroban
open Guarded History
set_option autoImplicit false

variable {host : Host} {env : Env} {s s' : State} {v v' : Vaults} {r r' : Release} {logs : List Event}
  {hist : List (Transition State Invocation)}

/-! ## Recovered addresses -/

def heartbeatDigest (host : Host) (gidHash : Bytes32) (evmVaultId : ℕ) (evmOwner : EvmAddress)
    (timestamp : ℕ) : Bytes32 :=
  ethSignedMessage host (host.keccak256 (heartbeatPayload gidHash evmVaultId evmOwner timestamp))

def revocationDigest (host : Host) (vaultGid : Bytes32) (documentId : ℕ) (targetEvmUser : EvmAddress)
    (targetStellarUser : Address) (nonce : ℕ) : Bytes32 :=
  ethSignedMessage host (host.keccak256
    (revocationPayload host vaultGid documentId targetEvmUser targetStellarUser nonce))

/-- The address that `sync_proof_of_life` compares with the bound owner. -/
def heartbeatSigner (host : Host) (digest : Bytes32) (signature : Signature) (recoveryId : ℕ) :
    Option EvmAddress :=
  (host.secp256k1Recover digest signature recoveryId).map fun recovered =>
    evmAddressOf (host.keccak256 recovered)

/-- The address that `recover_eth_address` returns. -/
def revocationSigner (host : Host) (digest : Bytes32) (signature : Signature) (recoveryId : ℕ) :
    Option EvmAddress :=
  (host.secp256k1Recover digest signature recoveryId).map fun pubkey =>
    evmAddressOf (host.keccak256 ((pubkey.drop 1).take 64))

/-- The Ethereum address of an uncompressed SEC1 key. -/
def ethereumAddress (host : Host) (key : Bytes) : EvmAddress := evmAddressOf (host.keccak256 (key.drop 1))

theorem syncProofOfLife_signer {relayer : Address} {vaultId evmVaultId timestamp recoveryId : ℕ}
    {gidHash : Bytes32} {evmOwner : EvmAddress} {signature : Signature} {out : Output (Vaults × Release)}
    (h : syncProofOfLife host env v r relayer vaultId evmVaultId gidHash evmOwner timestamp signature
      recoveryId = .ok out) :
    heartbeatSigner host (heartbeatDigest host gidHash evmVaultId evmOwner timestamp) signature
      recoveryId = some evmOwner := by
  simp only [syncProofOfLife, bind_ok, requireAuth_ok, assert_ok, expect_ok, loadVaultRecord_ok,
    exists_const] at h
  obtain ⟨_, _, _, _, _, _, _, _, _, _, h⟩ := h
  split at h
  · cases h
  · next recovered hrecovered =>
    simp only [bind_ok, assert_ok, exists_const] at h
    rw [heartbeatSigner, heartbeatDigest, hrecovered, Option.map_some, h.1]

theorem recoverEthAddress_ok {vaultGid : Bytes32} {documentId nonce recoveryId : ℕ}
    {targetEvmUser recovered : EvmAddress} {targetStellarUser : Address} {signature : Signature} :
    recoverEthAddress host vaultGid documentId targetEvmUser targetStellarUser nonce signature recoveryId
        = .ok recovered ↔
      revocationSigner host (revocationDigest host vaultGid documentId targetEvmUser targetStellarUser
        nonce) signature recoveryId = some recovered := by
  rw [revocationSigner, revocationDigest, recoverEthAddress]
  cases host.secp256k1Recover _ signature recoveryId with
  | none => simp
  | some key => simp

theorem heartbeatSigner_ne {digest : Bytes32} {signature : Signature} {recoveryId : ℕ} {key : Bytes}
    (hkey : host.secp256k1Recover digest signature recoveryId = some key) (hlength : key.length = 65)
    (hinj : Set.InjOn (fun bytes => evmAddressOf (host.keccak256 bytes)) {key, key.drop 1}) :
    revocationSigner host digest signature recoveryId = some (ethereumAddress host key) ∧
      heartbeatSigner host digest signature recoveryId ≠ some (ethereumAddress host key) := by
  have hrest : (key.drop 1).length = 64 := by
    rw [List.length_drop, hlength]
  constructor
  · rw [revocationSigner, hkey, Option.map_some, List.take_of_length_le hrest.le, ethereumAddress]
  · intro hsame
    rw [heartbeatSigner, hkey, Option.map_some, Option.some.injEq, ethereumAddress] at hsame
    have heq : key = key.drop 1 := hinj (Or.inl rfl) (Or.inr rfl) hsame
    rw [← heq, hlength] at hrest
    omega

/-- The two paths never recover one address: the relayed revocation recovers the Ethereum address of
the key, and `sync_proof_of_life` refuses every heartbeat signed by the owner's Ethereum account. -/
theorem recovered_addresses_differ
    (hlength : ∀ digest signature recoveryId key,
      host.secp256k1Recover digest signature recoveryId = some key → key.length = 65)
    (hinj : ∀ digest signature recoveryId key,
      host.secp256k1Recover digest signature recoveryId = some key →
        Set.InjOn (fun bytes => evmAddressOf (host.keccak256 bytes)) {key, key.drop 1}) :
    (∀ digest signature recoveryId key,
      host.secp256k1Recover digest signature recoveryId = some key →
        revocationSigner host digest signature recoveryId = some (ethereumAddress host key) ∧
          heartbeatSigner host digest signature recoveryId ≠ some (ethereumAddress host key)) ∧
    (∀ vaultGid documentId targetEvmUser targetStellarUser nonce signature recoveryId recovered,
      recoverEthAddress host vaultGid documentId targetEvmUser targetStellarUser nonce signature recoveryId
          = .ok recovered →
        heartbeatSigner host (revocationDigest host vaultGid documentId targetEvmUser targetStellarUser
          nonce) signature recoveryId ≠ some recovered) ∧
    ∀ env v r relayer vaultId evmVaultId gidHash evmOwner timestamp signature recoveryId out,
      syncProofOfLife host env v r relayer vaultId evmVaultId gidHash evmOwner timestamp signature
          recoveryId = .ok out →
        revocationSigner host (heartbeatDigest host gidHash evmVaultId evmOwner timestamp) signature
          recoveryId ≠ some evmOwner := by
  have hdiffer : ∀ digest signature recoveryId a,
      revocationSigner host digest signature recoveryId = some a →
        heartbeatSigner host digest signature recoveryId ≠ some a := by
    intro digest signature recoveryId a ha
    obtain ⟨key, hkey, _⟩ := Option.map_eq_some_iff.mp ha
    obtain ⟨hrevocation, hheartbeat⟩ := heartbeatSigner_ne hkey (hlength _ _ _ _ hkey) (hinj _ _ _ _ hkey)
    rw [hrevocation] at ha
    rw [← ha]
    exact hheartbeat
  refine ⟨?_, ?_, ?_⟩
  · intro digest signature recoveryId key hkey
    exact heartbeatSigner_ne hkey (hlength _ _ _ _ hkey) (hinj _ _ _ _ hkey)
  · intro vaultGid documentId targetEvmUser targetStellarUser nonce signature recoveryId recovered h
    exact hdiffer _ _ _ _ (recoverEthAddress_ok.mp h)
  · intro env v r relayer vaultId evmVaultId gidHash evmOwner timestamp signature recoveryId out h hsigner
    exact hdiffer _ _ _ _ hsigner (syncProofOfLife_signer h)

/-- The key of the secret 1, as the host returns it. -/
def generatorKey : Bytes :=
  4 :: (word 0x79be667ef9dcbbac55a06295ce870b07029bfcdb2dce28d959f2815b16f81798 ++
    word 0x483ada7726a3c4655da4fbfc0e1108a8fd17b448a68554199c47d08ffb10d4b8)

/-- The digest of the empty string, signed with the secret 1. -/
def recordedDigest : Bytes32 := 0xc5d2460186f7233c927e7db2dcc703c0e500b653ca82273b7bfad8045d85a470

def recordedSignature : Signature :=
  (0xc6047f9441ed7d6d3045406e95c07cd85c778e4b8cef3ca7abac09b95c709ee5 : Bytes32) ++
    (0x45eb62cae4725054e161df10b943c04d4364b3dc541461d3b3ea419874e0010a : Bytes32)

def recordedHost : Host :=
  { localHost with
    keccak256 := fun b =>
      if b = generatorKey then 0x393a75c54f3552ba0c8900297d6e99bb8abf8cc013bb0e912d0b176596fe7b88
      else if b = generatorKey.drop 1 then
        0xc0a6c424ac7157ae408398df7e5f4552091a69125d5dfcb7b8c2659029395bdf
      else recordedDigest
    secp256k1Recover := fun digest signature recoveryId =>
      if digest = recordedDigest ∧ signature = recordedSignature ∧ recoveryId = 0 then some generatorKey
      else none }

theorem recordedHost_recovers {digest : Bytes32} {signature : Signature} {recoveryId : ℕ} {key : Bytes}
    (h : recordedHost.secp256k1Recover digest signature recoveryId = some key) : key = generatorKey := by
  simp only [recordedHost] at h
  split at h
  · exact (Option.some.inj h).symm
  · cases h

/-- The wallet of the secret 1 is what a relayed revocation recovers and a heartbeat does not. -/
theorem recovered_addresses_differ_generator :
    revocationSigner recordedHost recordedDigest recordedSignature 0 =
        some 0x7e5f4552091a69125d5dfcb7b8c2659029395bdf ∧
      heartbeatSigner recordedHost recordedDigest recordedSignature 0 ≠
        some 0x7e5f4552091a69125d5dfcb7b8c2659029395bdf := by
  have haddress : ethereumAddress recordedHost generatorKey = 0x7e5f4552091a69125d5dfcb7b8c2659029395bdf := by
    decide +kernel
  have hne : evmAddressOf (recordedHost.keccak256 generatorKey) ≠
      evmAddressOf (recordedHost.keccak256 (generatorKey.drop 1)) := by
    decide +kernel
  have hlength : ∀ digest signature recoveryId key,
      recordedHost.secp256k1Recover digest signature recoveryId = some key → key.length = 65 := by
    intro digest signature recoveryId key hkey
    rw [recordedHost_recovers hkey]
    decide +kernel
  have hinj : ∀ digest signature recoveryId key,
      recordedHost.secp256k1Recover digest signature recoveryId = some key →
        Set.InjOn (fun bytes => evmAddressOf (recordedHost.keccak256 bytes)) {key, key.drop 1} := by
    intro digest signature recoveryId key hkey
    rw [recordedHost_recovers hkey]
    rintro x (rfl | rfl) y (rfl | rfl) hxy
    · rfl
    · exact absurd hxy hne
    · exact absurd hxy (Ne.symm hne)
    · rfl
  have hdiffer := (recovered_addresses_differ hlength hinj).1 recordedDigest
    recordedSignature 0 generatorKey (by decide +kernel)
  rwa [haddress] at hdiffer

theorem heartbeat_signer_of_wallet :
    heartbeatSigner recordedHost recordedDigest recordedSignature 0 =
        some 0x7d6e99bb8abf8cc013bb0e912d0b176596fe7b88 ∧
      revocationSigner recordedHost recordedDigest recordedSignature 0 =
        some 0x7e5f4552091a69125d5dfcb7b8c2659029395bdf := by
  decide +kernel

/-! ## The last proof of life -/

def lifeOf (v : Vaults) (w : ℕ) : Option ℕ := (v.vaults w).map (·.releaseState.lastProofOfLife)

def Call.provenVault : Call → Option ℕ
  | .release (.proveLife _ w) | .release (.proveLifeByKeeper _ w) => some w
  | _ => none

def Call.heartbeat : Call → Option (ℕ × ℕ × Signature)
  | .release (.syncProofOfLife _ w _ _ _ timestamp signature _) => some (w, timestamp, signature)
  | _ => none

/-- What a call does to the last proofs of life. -/
inductive LifeWrite (env : Env) (v v' : Vaults) (c : Call) : Prop
  | kept : c.provenVault = none → c.heartbeat = none →
      (∀ w life, lifeOf v w = some life → lifeOf v' w = some life) → LifeWrite env v v' c
  | proved (w : ℕ) : c.provenVault = some w → c.heartbeat = none → lifeOf v w ≠ none →
      lifeOf v' = Function.update (lifeOf v) w (some env.timestamp) → LifeWrite env v v' c
  | synced (w life timestamp : ℕ) (signature : Signature) : c.provenVault = none →
      c.heartbeat = some (w, timestamp, signature) → lifeOf v w = some life → life < timestamp →
      lifeOf v' = Function.update (lifeOf v) w (some timestamp) → LifeWrite env v v' c

theorem lifeOf_of_some {w : ℕ} {record : VaultRecord} (h : v.vaults w = some record) :
    lifeOf v w = some record.releaseState.lastProofOfLife := by
  rw [lifeOf, h, Option.map_some]

theorem lifeOf_of_vaults (h : v'.vaults = v.vaults) : lifeOf v' = lifeOf v := by
  funext w
  rw [lifeOf, lifeOf, h]

theorem lifeOf_update {w : ℕ} {record : VaultRecord}
    (h : v'.vaults = Function.update v.vaults w (some record)) :
    lifeOf v' = Function.update (lifeOf v) w (some record.releaseState.lastProofOfLife) := by
  funext x
  by_cases hx : x = w
  · subst hx
    rw [lifeOf, h, Function.update_self, Function.update_self, Option.map_some]
  · rw [lifeOf, h, Function.update_of_ne hx, Function.update_of_ne hx, lifeOf]

theorem lifeOf_resave {w x : ℕ} {life : Option ℕ} {record record' : VaultRecord}
    (hrecord : v.vaults w = some record) (h : v'.vaults = Function.update v.vaults w (some record'))
    (hsame : record'.releaseState.lastProofOfLife = record.releaseState.lastProofOfLife)
    (hlife : lifeOf v x = life) : lifeOf v' x = life := by
  rw [lifeOf_update h, hsame, ← lifeOf_of_some hrecord, Function.update_eq_self]
  exact hlife

theorem lifeOf_recordLife (env : Env) (v : Vaults) (w : ℕ) (record : VaultRecord) (timestamp : ℕ) :
    lifeOf (saveVaultRecord v w (recordLife env record timestamp)) =
      Function.update (lifeOf v) w (some timestamp) := by
  have hsaved : (saveVaultRecord v w (recordLife env record timestamp)).vaults =
      Function.update v.vaults w (some (recordLife env record timestamp)) := rfl
  exact lifeOf_update hsaved

theorem execVaults_life {c : VaultCall} (h : execVaults env v c = .ok (v', logs)) (hok : VaultsOk v) :
    ∀ w life, lifeOf v w = some life → lifeOf v' w = some life := by
  intro w life hlife
  cases c with
  | createVault creator name description guardians approvalThreshold =>
    obtain ⟨_, _, _, hsaved, _⟩ := createVault_ok h
    obtain ⟨record, hrecord, _⟩ := Option.map_eq_some_iff.mp hlife
    have hle := hok.counted w record hrecord
    have hne : w ≠ v.vaultCount + 1 := by omega
    rw [lifeOf_update hsaved, Function.update_of_ne hne]
    exact hlife
  | acceptGuardianInvite guardian vaultId =>
    obtain ⟨record, hrecord, _, hsaved, _⟩ := acceptGuardianInvite_ok h
    exact lifeOf_resave hrecord hsaved rfl hlife
  | registerGuardianBLSKey guardian vaultId blsPublicKey proofOfPossession =>
    rw [lifeOf_of_vaults (registerGuardianBLSKey_ok h).1]
    exact hlife
  | setAccessRegistry owner vaultId registry =>
    rw [lifeOf_of_vaults (setAccessRegistry_ok h).1]
    exact hlife
  | deactivateVault owner vaultId =>
    obtain ⟨record, hrecord, _, rfl⟩ := deactivateVault_ok h
    exact lifeOf_resave hrecord rfl rfl hlife

theorem execRelease_life {c : ReleaseCall} (h : execRelease host env v r c = .ok ((v', r'), logs)) :
    LifeWrite env v v' (.release c) := by
  cases c with
  | proveLife owner vaultId =>
    obtain ⟨record, hrecord, _, rfl, rfl⟩ := proveLife_ok h
    exact .proved vaultId rfl rfl (by simp [lifeOf_of_some hrecord]) (lifeOf_recordLife ..)
  | proveLifeByKeeper keeper vaultId =>
    obtain ⟨record, hrecord, _, rfl, rfl⟩ := proveLifeByKeeper_ok h
    exact .proved vaultId rfl rfl (by simp [lifeOf_of_some hrecord]) (lifeOf_recordLife ..)
  | syncProofOfLife relayer vaultId evmVaultId gidHash evmOwner timestamp signature recoveryId =>
    obtain ⟨record, hrecord, hstale, rfl, rfl⟩ := syncProofOfLife_ok h
    exact .synced vaultId _ timestamp signature rfl rfl (lifeOf_of_some hrecord) hstale
      (lifeOf_recordLife ..)
  | configureVaultRelease owner vaultId inactivityPeriod =>
    obtain ⟨record, hrecord, _, rfl, rfl⟩ := configureVaultRelease_ok h
    exact .kept rfl rfl fun _ _ => lifeOf_resave hrecord rfl rfl
  | setEmergencyMode owner vaultId enabled =>
    obtain ⟨record, hrecord, _, rfl, _⟩ := setEmergencyMode_ok h
    exact .kept rfl rfl fun _ _ => lifeOf_resave hrecord rfl rfl
  | authorizeKeeper owner vaultId keeper expiresAt =>
    obtain ⟨rfl, _, _⟩ := authorizeKeeper_ok h
    exact .kept rfl rfl fun _ _ => id
  | revokeKeeper owner vaultId =>
    obtain ⟨rfl, _, _⟩ := revokeKeeper_ok h
    exact .kept rfl rfl fun _ _ => id
  | bindCrossChainHeartbeat owner vaultId gidHash evmOwner relayer =>
    obtain ⟨rfl, _, _⟩ := bindCrossChainHeartbeat_ok h
    exact .kept rfl rfl fun _ _ => id
  | setEmergencyJitterWindow owner vaultId jitterWindow =>
    obtain ⟨rfl, _, _⟩ := setEmergencyJitterWindow_ok h
    exact .kept rfl rfl fun _ _ => id
  | fulfillEmergencyUnlockDelay vaultId =>
    obtain ⟨rfl, _⟩ := fulfillEmergencyUnlockDelay_ok h
    exact .kept rfl rfl fun _ _ => id

theorem Steps.life_write {i : Invocation} (h : Steps host s i s') (hok : VaultsOk s.vaults) :
    LifeWrite i.1 s.vaults s'.vaults i.2 := by
  cases h.effect with
  | vaults hexec => exact .kept rfl rfl (execVaults_life hexec hok)
  | release hexec => exact execRelease_life hexec
  | _ => exact .kept rfl rfl fun _ _ => id

/-! ## Freshness -/

def KeepsLife (t : Transition State Invocation) : Prop :=
  ∀ w life, lifeOf t.pre.vaults w = some life →
    ∃ life', lifeOf t.post.vaults w = some life' ∧ life ≤ life'

/-- The owner or the keeper proves life before the time of the last proof of life. -/
def RewindsLife (t : Transition State Invocation) : Prop :=
  ∃ w ∈ t.label.2.provenVault, ∃ life ∈ lifeOf t.pre.vaults w, t.label.1.timestamp < life

instance : DecidablePred RewindsLife := fun t =>
  inferInstanceAs (Decidable (∃ w ∈ t.label.2.provenVault, ∃ life ∈ lifeOf t.pre.vaults w,
    t.label.1.timestamp < life))

def heartbeats (hist : List (Transition State Invocation)) : List (ℕ × ℕ × Signature) :=
  hist.filterMap fun t => t.label.2.heartbeat

theorem LifeWrite.keepsLife_iff {c : Call} (h : LifeWrite env s.vaults s'.vaults c) :
    KeepsLife ⟨s, (env, c), s'⟩ ↔ ¬ RewindsLife ⟨s, (env, c), s'⟩ := by
  cases h with
  | kept hproven _ hkept =>
    refine iff_of_true ?_ ?_
    · intro w life hlife
      exact ⟨life, hkept w life hlife, le_rfl⟩
    · rintro ⟨w, hw, _⟩
      rw [hproven] at hw
      cases hw
  | proved w hproven _ hsome hupdate =>
    constructor
    · rintro hkeeps ⟨w', hw', life, hlife, hlt⟩
      obtain rfl : w = w' := Option.some.inj (hproven.symm.trans hw')
      obtain ⟨life', hlife', hle⟩ := hkeeps w life hlife
      rw [hupdate, Function.update_self, Option.some.injEq] at hlife'
      rw [← hlife'] at hle
      exact absurd hlt (not_lt.mpr hle)
    · intro hrewinds w' life hlife
      by_cases hw' : w' = w
      · subst hw'
        refine ⟨env.timestamp, by rw [hupdate, Function.update_self], ?_⟩
        by_contra hlt
        exact hrewinds ⟨w', hproven, life, hlife, not_le.mp hlt⟩
      · exact ⟨life, by rw [hupdate, Function.update_of_ne hw', hlife], le_rfl⟩
  | synced w life₀ timestamp signature hproven _ hbefore hlt hupdate =>
    refine iff_of_true ?_ ?_
    · intro w' life hlife
      by_cases hw' : w' = w
      · subst hw'
        dsimp only at hlife
        obtain rfl : life₀ = life := Option.some.inj (hbefore.symm.trans hlife)
        exact ⟨timestamp, by rw [hupdate, Function.update_self], hlt.le⟩
      · exact ⟨life, by rw [hupdate, Function.update_of_ne hw', hlife], le_rfl⟩
    · rintro ⟨w, hw, _⟩
      rw [hproven] at hw
      cases hw

/-- Every accepted heartbeat is at most as recent as its vault's last proof of life. -/
def HeartbeatsPast (hist : List (Transition State Invocation)) (s : State) : Prop :=
  ∀ w timestamp signature, (w, timestamp, signature) ∈ heartbeats hist →
    ∃ life, lifeOf s.vaults w = some life ∧ timestamp ≤ life

theorem heartbeats_cons (t : Transition State Invocation) (hist : List (Transition State Invocation)) :
    heartbeats (t :: hist) = t.label.2.heartbeat.toList ++ heartbeats hist := by
  rw [heartbeats, List.filterMap_cons]
  cases t.label.2.heartbeat <;> rfl

theorem HeartbeatsPast.kept {t : Transition State Invocation} (h : HeartbeatsPast hist t.pre)
    (hkeeps : KeepsLife t) {w timestamp : ℕ} {signature : Signature}
    (hmem : (w, timestamp, signature) ∈ heartbeats hist) :
    ∃ life, lifeOf t.post.vaults w = some life ∧ timestamp ≤ life := by
  obtain ⟨life, hlife, hle⟩ := h w timestamp signature hmem
  obtain ⟨life', hlife', hle'⟩ := hkeeps w life hlife
  exact ⟨life', hlife', hle.trans hle'⟩

theorem LifeWrite.heartbeats_step {c : Call} (h : LifeWrite env s.vaults s'.vaults c)
    (hkeeps : KeepsLife ⟨s, (env, c), s'⟩) (hpast : HeartbeatsPast hist s)
    (hnodup : (heartbeats hist).Nodup) :
    HeartbeatsPast (⟨s, (env, c), s'⟩ :: hist) s' ∧
      (heartbeats (⟨s, (env, c), s'⟩ :: hist)).Nodup := by
  have hrest : ∀ w timestamp signature, (w, timestamp, signature) ∈ heartbeats hist →
      ∃ life, lifeOf s'.vaults w = some life ∧ timestamp ≤ life :=
    fun w timestamp signature hmem => hpast.kept hkeeps hmem
  rw [HeartbeatsPast, heartbeats_cons]
  cases hbeat : c.heartbeat with
  | none => exact ⟨hrest, hnodup⟩
  | some beat =>
    cases h with
    | kept _ hnone _ =>
      rw [hbeat] at hnone
      cases hnone
    | proved _ _ hnone _ _ =>
      rw [hbeat] at hnone
      cases hnone
    | synced w life timestamp signature _ hsome hbefore hlt hupdate =>
      obtain rfl : beat = (w, timestamp, signature) := Option.some.inj (hbeat.symm.trans hsome)
      refine ⟨?_, List.nodup_cons.mpr ⟨?_, hnodup⟩⟩
      · intro w' timestamp' signature' hmem
        rcases List.mem_cons.mp hmem with heq | hmem
        · obtain ⟨rfl, rfl, rfl⟩ : w' = w ∧ timestamp' = timestamp ∧ signature' = signature := by
            simpa using heq
          exact ⟨timestamp', by rw [hupdate, Function.update_self], le_rfl⟩
        · exact hrest w' timestamp' signature' hmem
      · intro hagain
        obtain ⟨life', hlife', hle⟩ := hpast w timestamp signature hagain
        rw [hbefore, Option.some.injEq] at hlife'
        omega

/-- No last proof of life decreases in a run and no heartbeat is accepted twice exactly when no owner
or keeper proves life before the time of the last proof of life. -/
theorem heartbeats_fresh_iff (h : StellarRun host hist s) :
    ((∀ t ∈ hist, KeepsLife t) ∧ (heartbeats hist).Nodup) ↔ ∀ t ∈ hist, ¬ RewindsLife t := by
  have hsteps : ∀ t ∈ hist, KeepsLife t ↔ ¬ RewindsLife t := by
    intro t ht
    obtain ⟨_, _, hrun, hstep⟩ := h.of_mem ht
    exact (hstep.life_write (vaultsOk hrun)).keepsLife_iff
  constructor
  · rintro ⟨hkeeps, _⟩ t ht
    exact (hsteps t ht).mp (hkeeps t ht)
  · intro hclean
    have hkeeps : ∀ t ∈ hist, KeepsLife t := fun t ht => (hsteps t ht).mpr (hclean t ht)
    refine ⟨hkeeps, ?_⟩
    refine (h.relates_of (R := fun hist s => HeartbeatsPast hist s ∧ (heartbeats hist).Nodup) ?_ ?_
      hkeeps).2
    · intro s _
      exact ⟨fun _ _ _ hmem => absurd hmem List.not_mem_nil, List.nodup_nil⟩
    · intro hist s i s' hrun ih hkept hstep
      exact (hstep.life_write (vaultsOk hrun)).heartbeats_step hkept ih.1 ih.2

/-- Owner 1 binds heartbeats of its wallet, and relayer 5 syncs one that is dated ahead. -/
def syncedAhead : List Invocation :=
  openedVault 1 ++
    [(invokedBy [acct 1] 103, .release (.bindCrossChainHeartbeat (acct 1) 1 0 1 (acct 5))),
      (invokedBy [acct 5] 110, .release (.syncProofOfLife (acct 5) 1 7 0 1 400 0 0))]

/-- The owner proves life once the heartbeat's time has come. -/
theorem heartbeats_fresh_later : ∃ hist s, StellarRun localHost hist s ∧ heartbeats hist = [(1, 400, 0)] ∧
    (∀ t ∈ hist, KeepsLife t) ∧ (heartbeats hist).Nodup := by
  obtain ⟨hist, s, hrun, hend⟩ := exists_run localHost
    (syncedAhead ++ [(invokedBy [acct 1] 500, .release (.proveLife (acct 1) 1))])
    (fun hist _ => decide (heartbeats hist = [(1, 400, 0)] ∧ ∀ t ∈ hist, ¬ RewindsLife t))
    (by decide +kernel)
  have hend := of_decide_eq_true hend
  exact ⟨hist, s, hrun, hend.1, (heartbeats_fresh_iff hrun).mpr hend.2⟩

/-- The ledger's clock never goes back in the history. -/
def Chronological (hist : List (Transition State Invocation)) : Prop :=
  (hist.map fun t => t.label.1.timestamp).Pairwise (· ≥ ·)

instance : DecidablePred Chronological := fun hist =>
  inferInstanceAs (Decidable ((hist.map fun t => t.label.1.timestamp).Pairwise (· ≥ ·)))

/-- The owner proves life before the heartbeat's time, which lets the relayer sync it again. -/
theorem heartbeat_replayed : ∃ hist s, StellarRun localHost hist s ∧
    Chronological hist ∧ heartbeats hist = [(1, 400, 0), (1, 400, 0)] ∧ ∃ t ∈ hist, ¬ KeepsLife t := by
  obtain ⟨hist, s, hrun, hend⟩ := exists_run localHost
    (syncedAhead ++
      [(invokedBy [acct 1] 200, .release (.proveLife (acct 1) 1)),
        (invokedBy [acct 5] 210, .release (.syncProofOfLife (acct 5) 1 7 0 1 400 0 0))])
    (fun hist _ => decide (Chronological hist ∧
      heartbeats hist = [(1, 400, 0), (1, 400, 0)] ∧
      ∃ t ∈ hist, ∃ life ∈ lifeOf t.pre.vaults 1, ∃ life' ∈ lifeOf t.post.vaults 1, life' < life))
    (by decide +kernel)
  obtain ⟨htimes, hbeats, t, ht, life, hlife, life', hlife', hlt⟩ := of_decide_eq_true hend
  refine ⟨hist, s, hrun, htimes, hbeats, t, ht, fun hkeeps => ?_⟩
  obtain ⟨later, hlater, hle⟩ := hkeeps 1 life hlife
  obtain rfl : life' = later := Option.some.inj (hlife'.symm.trans hlater)
  omega

end ChainGuard.Soroban
