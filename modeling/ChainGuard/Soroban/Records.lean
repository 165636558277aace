import ChainGuard.Soroban.Contract

/-! What the calls of the vault and release families write: the vault records, and the schedules of the
emergency unlock. Every call but a synced heartbeat saves the record of an active vault only. -/
namespace ChainGuard.Soroban
open Guarded History
set_option autoImplicit false

variable {host : Host} {env : Env} {s s' : State} {v v' : Vaults} {r r' : Release} {logs : List Event}

/-! ## What is written -/

/-- What a call does to the vault records, by the vault whose heartbeat it syncs. -/
inductive RecordWrite (v v' : Vaults) : Option ℕ → Prop
  | kept : v'.vaults = v.vaults → v'.vaultCount = v.vaultCount → RecordWrite v v' none
  | created (record : VaultRecord) : 0 < record.vault.approvalThreshold →
      v'.vaults = Function.update v.vaults (v.vaultCount + 1) (some record) →
      v'.vaultCount = v.vaultCount + 1 → RecordWrite v v' none
  | saved (w : ℕ) (record record' : VaultRecord) : v.vaults w = some record →
      record.vault.isActive = true → v'.vaults = Function.update v.vaults w (some record') →
      v'.vaultCount = v.vaultCount →
      record'.vault.approvalThreshold = record.vault.approvalThreshold →
      record.vault.guardians ⊆ record'.vault.guardians → RecordWrite v v' none
  | synced (w : ℕ) (record : VaultRecord) (releaseState : VaultReleaseState) :
      v.vaults w = some record →
      record.releaseState.lastProofOfLife < releaseState.lastProofOfLife →
      v'.vaults = Function.update v.vaults w (some { record with releaseState }) →
      v'.vaultCount = v.vaultCount → RecordWrite v v' (some w)

theorem RecordWrite.released {w : ℕ} {record : VaultRecord} (h : v.vaults w = some record)
    (hactive : record.vault.isActive = true) (releaseState : VaultReleaseState) :
    RecordWrite v (saveVaultRecord v w { record with releaseState }) none :=
  .saved w record _ h hactive rfl rfl rfl (List.Subset.refl _)

def requestedUnlock (cycle sequence : ℕ) : EmergencyUnlockSchedule :=
  { cycle, requestSequence := sequence, fulfilled := false, unlockAt := 0, unlockSequence := 0
    jitterSeconds := 0 }

inductive UnlockWrite (env : Env) (r : Release) : ReleaseCall → Release → Prop
  | kept {c : ReleaseCall} {r' : Release} : (∀ owner w enabled, c ≠ .setEmergencyMode owner w enabled) →
      (∀ w, c ≠ .fulfillEmergencyUnlockDelay w) → r'.emergencyUnlock = r.emergencyUnlock →
      r'.emergencyUnlockCycle = r.emergencyUnlockCycle → UnlockWrite env r c r'
  | disabled {owner : Address} {w : ℕ} : UnlockWrite env r (.setEmergencyMode owner w false)
      { r with emergencyUnlock := Function.update r.emergencyUnlock w none }
  | enabled {owner : Address} {w : ℕ} (cycle : ℕ) : UnlockWrite env r (.setEmergencyMode owner w true)
      { r with
        emergencyUnlockCycle := Function.update r.emergencyUnlockCycle w cycle
        emergencyUnlock := Function.update r.emergencyUnlock w
          (some (requestedUnlock cycle env.sequence)) }
  | fulfilled {w : ℕ} (schedule : EmergencyUnlockSchedule) (window : ℕ) :
      r.emergencyUnlock w = some schedule → schedule.fulfilled = false →
      schedule.cycle = r.emergencyUnlockCycle w →
      schedule.requestSequence + MIN_EMERGENCY_UNLOCK_CONFIRMATIONS ≤ env.sequence →
      UnlockWrite env r (.fulfillEmergencyUnlockDelay w)
        { r with emergencyUnlock :=
          Function.update r.emergencyUnlock w (some (scheduleUnlock env schedule window)) }

/-! ## By call

What an accepted call required and what it returned. -/

theorem createVault_ok {creator : Address} {name description : Bytes} {guardians : List Address} {n : ℕ}
    (h : createVault env v creator name description guardians n = .ok (v', logs)) :
    ∃ record, 0 < n ∧ record.vault.approvalThreshold = n ∧
      v'.vaults = Function.update v.vaults (v.vaultCount + 1) (some record) ∧
      v'.vaultCount = v.vaultCount + 1 := by
  simp only [createVault, bind_ok, requireAuth_ok, assert_ok, exists_const, pure_ok,
    Prod.mk.injEq] at h
  obtain ⟨_, _, _, hthreshold, rfl, _⟩ := h
  exact ⟨_, hthreshold.1, rfl, rfl, rfl⟩

theorem acceptGuardianInvite_ok {guardian : Address} {w : ℕ}
    (h : acceptGuardianInvite env v guardian w = .ok (v', logs)) :
    ∃ record, v.vaults w = some record ∧ record.vault.isActive = true ∧
      v'.vaults = Function.update v.vaults w (some { record with
        vault := { record.vault with guardians := record.vault.guardians ++ [guardian] } }) ∧
      v'.vaultCount = v.vaultCount := by
  simp only [acceptGuardianInvite, bind_ok, requireAuth_ok, assert_ok, loadVaultRecord_ok, expect_ok,
    exists_const, pure_ok, Prod.mk.injEq] at h
  obtain ⟨_, record, hrecord, hactive, _, _, _, _, _, rfl, _⟩ := h
  exact ⟨record, hrecord, hactive, rfl, rfl⟩

theorem registerGuardianBLSKey_ok {guardian : Address} {w : ℕ} {blsPublicKey proofOfPossession : Bytes}
    (h : registerGuardianBLSKey env v guardian w blsPublicKey proofOfPossession = .ok (v', logs)) :
    v'.vaults = v.vaults ∧ v'.vaultCount = v.vaultCount := by
  simp only [registerGuardianBLSKey, bind_ok, requireAuth_ok, assert_ok, loadVaultRecord_ok,
    exists_const, pure_ok, Prod.mk.injEq] at h
  obtain ⟨_, record, _, _, _, _, rfl, _⟩ := h
  exact ⟨rfl, rfl⟩

theorem setAccessRegistry_ok {owner registry : Address} {w : ℕ}
    (h : setAccessRegistry env v owner w registry = .ok (v', logs)) :
    v'.vaults = v.vaults ∧ v'.vaultCount = v.vaultCount := by
  simp only [setAccessRegistry, bind_ok, requireAuth_ok, assert_ok, loadVaultRecord_ok, exists_const,
    pure_ok, Prod.mk.injEq] at h
  obtain ⟨_, record, _, _, rfl, _⟩ := h
  exact ⟨rfl, rfl⟩

theorem deactivateVault_ok {owner : Address} {w : ℕ}
    (h : deactivateVault env v owner w = .ok (v', logs)) :
    ∃ record, v.vaults w = some record ∧ record.vault.isActive = true ∧
      v' = saveVaultRecord v w { record with vault := { record.vault with isActive := false } } := by
  simp only [deactivateVault, bind_ok, requireAuth_ok, assert_ok, loadVaultRecord_ok, exists_const,
    pure_ok, Prod.mk.injEq] at h
  obtain ⟨_, record, hrecord, _, hactive, rfl, _⟩ := h
  exact ⟨record, hrecord, hactive, rfl⟩

theorem proveLife_ok {owner : Address} {w : ℕ} (h : proveLife env v r owner w = .ok ((v', r'), logs)) :
    ∃ record, v.vaults w = some record ∧ record.vault.isActive = true ∧
      v' = saveVaultRecord v w (recordLife env record env.timestamp) ∧ r' = r := by
  simp only [proveLife, bind_ok, requireAuth_ok, assert_ok, loadVaultRecord_ok, exists_const, pure_ok,
    Prod.mk.injEq] at h
  obtain ⟨_, record, hrecord, _, hactive, ⟨rfl, rfl⟩, _⟩ := h
  exact ⟨record, hrecord, hactive, rfl, rfl⟩

theorem proveLifeByKeeper_ok {keeper : Address} {w : ℕ}
    (h : proveLifeByKeeper env v r keeper w = .ok ((v', r'), logs)) :
    ∃ record, v.vaults w = some record ∧ record.vault.isActive = true ∧
      v' = saveVaultRecord v w (recordLife env record env.timestamp) ∧ r' = r := by
  simp only [proveLifeByKeeper, bind_ok, requireAuth_ok, revertIf_ok, okOr_ok, tryLoadVaultRecord_ok,
    exists_const, pure_ok, Prod.mk.injEq, Bool.not_eq_false] at h
  obtain ⟨_, record, hrecord, hactive, _, _, _, _, ⟨rfl, rfl⟩, _⟩ := h
  exact ⟨record, hrecord, hactive, rfl, rfl⟩

theorem syncProofOfLife_ok {relayer : Address} {w evmVaultId timestamp recoveryId : ℕ}
    {gidHash : Bytes32} {evmOwner : EvmAddress} {signature : Signature}
    (h : syncProofOfLife host env v r relayer w evmVaultId gidHash evmOwner timestamp signature
      recoveryId = .ok ((v', r'), logs)) :
    ∃ record, v.vaults w = some record ∧ record.releaseState.lastProofOfLife < timestamp ∧
      v' = saveVaultRecord v w (recordLife env record timestamp) ∧ r' = r := by
  simp only [syncProofOfLife, bind_ok, requireAuth_ok, assert_ok, expect_ok, loadVaultRecord_ok,
    exists_const] at h
  obtain ⟨_, binding, _, _, _, _, record, hrecord, hstale, _, h⟩ := h
  split at h
  · cases h
  · simp only [bind_ok, assert_ok, exists_const, pure_ok, Prod.mk.injEq] at h
    obtain ⟨_, ⟨rfl, rfl⟩, _⟩ := h
    exact ⟨record, hrecord, hstale, rfl, rfl⟩

theorem configureVaultRelease_ok {owner : Address} {w inactivityPeriod : ℕ}
    (h : configureVaultRelease env v r owner w inactivityPeriod = .ok ((v', r'), logs)) :
    ∃ record, v.vaults w = some record ∧ record.vault.isActive = true ∧
      v' = saveVaultRecord v w
        { record with releaseState := { record.releaseState with inactivityPeriod } } ∧ r' = r := by
  simp only [configureVaultRelease, bind_ok, requireAuth_ok, assert_ok, loadVaultRecord_ok,
    exists_const, pure_ok, Prod.mk.injEq] at h
  obtain ⟨_, record, hrecord, _, hactive, _, ⟨rfl, rfl⟩, _⟩ := h
  exact ⟨record, hrecord, hactive, rfl, rfl⟩

theorem setEmergencyMode_ok {owner : Address} {w : ℕ} {enabled : Bool}
    (h : setEmergencyMode env v r owner w enabled = .ok ((v', r'), logs)) :
    ∃ record, v.vaults w = some record ∧ record.vault.isActive = true ∧
      v' = saveVaultRecord v w
        { record with releaseState := { record.releaseState with emergencyMode := enabled } } ∧
      UnlockWrite env r (.setEmergencyMode owner w enabled) r' := by
  simp only [setEmergencyMode, bind_ok, requireAuth_ok, assert_ok, loadVaultRecord_ok,
    exists_const] at h
  obtain ⟨_, record, hrecord, _, hactive, h⟩ := h
  cases enabled with
  | true =>
    simp only [if_true, bind_ok, assert_ok, exists_const, pure_ok, Prod.mk.injEq] at h
    obtain ⟨_, ⟨rfl, rfl⟩, _⟩ := h
    exact ⟨record, hrecord, hactive, rfl, .enabled _⟩
  | false =>
    simp only [Bool.false_eq_true, if_false, pure_ok, Prod.mk.injEq] at h
    obtain ⟨⟨rfl, rfl⟩, _⟩ := h
    exact ⟨record, hrecord, hactive, rfl, .disabled⟩

theorem fulfillEmergencyUnlockDelay_ok {w : ℕ}
    (h : fulfillEmergencyUnlockDelay env v r w = .ok ((v', r'), logs)) :
    v' = v ∧ UnlockWrite env r (.fulfillEmergencyUnlockDelay w) r' := by
  simp only [fulfillEmergencyUnlockDelay, bind_ok, assert_ok, expect_ok, loadVaultRecord_ok,
    exists_const, pure_ok, Prod.mk.injEq] at h
  obtain ⟨record, _, _, schedule, hschedule, hopen, hcycle, hconfirmed, _, ⟨rfl, rfl⟩, _⟩ := h
  exact ⟨rfl, .fulfilled schedule _ hschedule hopen hcycle.1 hconfirmed⟩

theorem authorizeKeeper_ok {owner keeper : Address} {w expiresAt : ℕ}
    (h : authorizeKeeper env v r owner w keeper expiresAt = .ok ((v', r'), logs)) :
    v' = v ∧ r'.emergencyUnlock = r.emergencyUnlock ∧
      r'.emergencyUnlockCycle = r.emergencyUnlockCycle := by
  simp only [authorizeKeeper, bind_ok, requireAuth_ok, revertIf_ok, tryLoadVaultRecord_ok,
    exists_const, pure_ok, Prod.mk.injEq] at h
  obtain ⟨_, record, _, _, _, _, ⟨rfl, rfl⟩, _⟩ := h
  exact ⟨rfl, rfl, rfl⟩

theorem revokeKeeper_ok {owner : Address} {w : ℕ}
    (h : revokeKeeper env v r owner w = .ok ((v', r'), logs)) :
    v' = v ∧ r'.emergencyUnlock = r.emergencyUnlock ∧
      r'.emergencyUnlockCycle = r.emergencyUnlockCycle := by
  simp only [revokeKeeper, bind_ok, requireAuth_ok, revertIf_ok, tryLoadVaultRecord_ok, exists_const,
    pure_ok, Prod.mk.injEq] at h
  obtain ⟨_, record, _, _, ⟨rfl, rfl⟩, _⟩ := h
  exact ⟨rfl, rfl, rfl⟩

theorem bindCrossChainHeartbeat_ok {owner relayer : Address} {w : ℕ} {gidHash : Bytes32}
    {evmOwner : EvmAddress}
    (h : bindCrossChainHeartbeat env v r owner w gidHash evmOwner relayer = .ok ((v', r'), logs)) :
    v' = v ∧ r'.emergencyUnlock = r.emergencyUnlock ∧
      r'.emergencyUnlockCycle = r.emergencyUnlockCycle := by
  simp only [bindCrossChainHeartbeat, bind_ok, requireAuth_ok, assert_ok, loadVaultRecord_ok,
    exists_const, pure_ok, Prod.mk.injEq] at h
  obtain ⟨_, record, _, _, _, ⟨rfl, rfl⟩, _⟩ := h
  exact ⟨rfl, rfl, rfl⟩

theorem setEmergencyJitterWindow_ok {owner : Address} {w jitterWindow : ℕ}
    (h : setEmergencyJitterWindow env v r owner w jitterWindow = .ok ((v', r'), logs)) :
    v' = v ∧ r'.emergencyUnlock = r.emergencyUnlock ∧
      r'.emergencyUnlockCycle = r.emergencyUnlockCycle := by
  simp only [setEmergencyJitterWindow, bind_ok, requireAuth_ok, assert_ok, loadVaultRecord_ok,
    exists_const, pure_ok, Prod.mk.injEq] at h
  obtain ⟨_, record, _, _, _, ⟨rfl, rfl⟩, _⟩ := h
  exact ⟨rfl, rfl, rfl⟩

/-! ## By family -/

theorem execVaults_write {c : VaultCall} (h : execVaults env v c = .ok (v', logs)) :
    RecordWrite v v' none := by
  cases c with
  | createVault creator name description guardians approvalThreshold =>
    obtain ⟨record, hpos, hthreshold, hsaved, hcount⟩ := createVault_ok h
    exact .created record (hthreshold ▸ hpos) hsaved hcount
  | acceptGuardianInvite guardian vaultId =>
    obtain ⟨record, hrecord, hactive, hsaved, hcount⟩ := acceptGuardianInvite_ok h
    exact .saved vaultId record _ hrecord hactive hsaved hcount rfl (List.subset_append_left _ _)
  | registerGuardianBLSKey guardian vaultId blsPublicKey proofOfPossession =>
    obtain ⟨hvaults, hcount⟩ := registerGuardianBLSKey_ok h
    exact .kept hvaults hcount
  | setAccessRegistry owner vaultId registry =>
    obtain ⟨hvaults, hcount⟩ := setAccessRegistry_ok h
    exact .kept hvaults hcount
  | deactivateVault owner vaultId =>
    obtain ⟨record, hrecord, hactive, rfl⟩ := deactivateVault_ok h
    exact .saved vaultId record _ hrecord hactive rfl rfl rfl (List.Subset.refl _)

def ReleaseCall.synced : ReleaseCall → Option ℕ
  | .syncProofOfLife _ vaultId .. => some vaultId
  | _ => none

theorem execRelease_write {c : ReleaseCall} (h : execRelease host env v r c = .ok ((v', r'), logs)) :
    RecordWrite v v' c.synced ∧ UnlockWrite env r c r' := by
  cases c with
  | proveLife owner vaultId =>
    obtain ⟨record, hrecord, hactive, rfl, rfl⟩ := proveLife_ok h
    exact ⟨.released hrecord hactive _, .kept (by simp) (by simp) rfl rfl⟩
  | authorizeKeeper owner vaultId keeper expiresAt =>
    obtain ⟨rfl, hunlock, hcycle⟩ := authorizeKeeper_ok h
    exact ⟨.kept rfl rfl, .kept (by simp) (by simp) hunlock hcycle⟩
  | revokeKeeper owner vaultId =>
    obtain ⟨rfl, hunlock, hcycle⟩ := revokeKeeper_ok h
    exact ⟨.kept rfl rfl, .kept (by simp) (by simp) hunlock hcycle⟩
  | proveLifeByKeeper keeper vaultId =>
    obtain ⟨record, hrecord, hactive, rfl, rfl⟩ := proveLifeByKeeper_ok h
    exact ⟨.released hrecord hactive _, .kept (by simp) (by simp) rfl rfl⟩
  | bindCrossChainHeartbeat owner vaultId gidHash evmOwner relayer =>
    obtain ⟨rfl, hunlock, hcycle⟩ := bindCrossChainHeartbeat_ok h
    exact ⟨.kept rfl rfl, .kept (by simp) (by simp) hunlock hcycle⟩
  | syncProofOfLife relayer vaultId evmVaultId gidHash evmOwner timestamp signature recoveryId =>
    obtain ⟨record, hrecord, hstale, rfl, rfl⟩ := syncProofOfLife_ok h
    exact ⟨.synced vaultId record _ hrecord hstale rfl rfl, .kept (by simp) (by simp) rfl rfl⟩
  | configureVaultRelease owner vaultId inactivityPeriod =>
    obtain ⟨record, hrecord, hactive, rfl, rfl⟩ := configureVaultRelease_ok h
    exact ⟨.released hrecord hactive _, .kept (by simp) (by simp) rfl rfl⟩
  | setEmergencyMode owner vaultId enabled =>
    obtain ⟨record, hrecord, hactive, rfl, hunlock⟩ := setEmergencyMode_ok h
    exact ⟨.released hrecord hactive _, hunlock⟩
  | setEmergencyJitterWindow owner vaultId jitterWindow =>
    obtain ⟨rfl, hunlock, hcycle⟩ := setEmergencyJitterWindow_ok h
    exact ⟨.kept rfl rfl, .kept (by simp) (by simp) hunlock hcycle⟩
  | fulfillEmergencyUnlockDelay vaultId =>
    obtain ⟨rfl, hunlock⟩ := fulfillEmergencyUnlockDelay_ok h
    exact ⟨.kept rfl rfl, hunlock⟩

/-! ## By transition -/

def syncedVault (t : Transition State Invocation) : Option ℕ :=
  match t.label.2 with
  | .release c => c.synced
  | _ => none

theorem Steps.record_write {i : Invocation} (h : Steps host s i s') :
    RecordWrite s.vaults s'.vaults (syncedVault ⟨s, i, s'⟩) := by
  cases h.effect with
  | vaults hexec => exact execVaults_write hexec
  | release hexec => exact (execRelease_write hexec).1
  | _ => exact .kept rfl rfl

end ChainGuard.Soroban
