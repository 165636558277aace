import ChainGuard.Soroban.State

/-! Vaults and their release: creation, invites, guardian keys, proofs of life by the owner, a
keeper or a relayed heartbeat, and the emergency unlock drawn from the ledger's randomness. -/
namespace ChainGuard.Soroban
open Guarded
set_option autoImplicit false

variable (host : Host) (env : Env) (v : Vaults) (r : Release)

/-! ## Vaults -/

def inviteGuardian (vaultId : ℕ) (invites : Address → Option (List GuardianInvite))
    (guardian : Address) : Address → Option (List GuardianInvite) :=
  Function.update invites guardian (some ((invites guardian).getD [] ++
    [{ guardian, vaultId, accepted := false, expiresAt := env.timestamp + days 7 }]))

def createVault (creator : Address) (name description : Bytes) (guardians : List Address)
    (approvalThreshold : ℕ) : Result (Output Vaults) := do
  requireAuth env creator
  assert guardians.Nodup "Duplicate guardian found"
  let external := guardians.filter (· ≠ creator)
  assert (0 < external.length) "At least one external guardian required"
  let totalGuardians := external.length + 1
  assert (0 < approvalThreshold ∧ approvalThreshold ≤ totalGuardians) "Invalid approval threshold"
  let nextVaultId := v.vaultCount + 1
  let vault := {
    id := nextVaultId, creator, name, description, guardians := [creator], approvalThreshold
    isActive := true, createdAt := env.timestamp : Vault }
  let releaseState := {
    emergencyMode := false, inactivityPeriod := days 30, lastProofOfLife := env.timestamp
    lastProofOfLifeSequence := env.sequence : VaultReleaseState }
  pure ({ v with
      vaultCount := nextVaultId
      vaults := Function.update v.vaults nextVaultId (some { vault, releaseState })
      invites := external.foldl (inviteGuardian env nextVaultId) v.invites }, [])

def acceptInvite (vaultId : ℕ) : List GuardianInvite → Result (List GuardianInvite)
  | [] => .error (.panic "No valid invite found")
  | invite :: rest =>
    if invite.vaultId = vaultId ∧ invite.accepted = false then do
      assert (env.timestamp < invite.expiresAt) "Invite expired"
      pure ({ invite with accepted := true } :: rest)
    else do
      let accepted ← acceptInvite vaultId rest
      pure (invite :: accepted)

def acceptGuardianInvite (guardian : Address) (vaultId : ℕ) : Result (Output Vaults) := do
  requireAuth env guardian
  let record ← loadVaultRecord v vaultId
  assert (record.vault.isActive = true) "Vault not active"
  assert (guardian ∉ record.vault.guardians) "Already guardian"
  let userInvites ← expect (v.invites guardian) "No invites for user"
  let accepted ← acceptInvite env vaultId userInvites
  let joined := { record with
    vault := { record.vault with guardians := record.vault.guardians ++ [guardian] } }
  pure ({ saveVaultRecord v vaultId joined with
      invites := Function.update v.invites guardian (some accepted) }, [])

def registerGuardianBLSKey (guardian : Address) (vaultId : ℕ) (blsPublicKey proofOfPossession : Bytes) :
    Result (Output Vaults) := do
  requireAuth env guardian
  let record ← loadVaultRecord v vaultId
  assert (record.vault.isActive = true) "Vault is deactivated"
  assert (guardian ∈ record.vault.guardians) "Only guardians can register BLS key"
  assert (BLSVerifier.verifyProofOfPossession blsPublicKey proofOfPossession = true)
    "Invalid Proof of Possession"
  pure ({ v with
      guardianBLSKey := Mapping.set₂ v.guardianBLSKey vaultId guardian (some
        { publicKey := blsPublicKey, proofOfPossession, registered := true
          registeredAt := env.timestamp }) }, [])

def setAccessRegistry (owner : Address) (vaultId : ℕ) (registry : Address) : Result (Output Vaults) := do
  requireAuth env owner
  let record ← loadVaultRecord v vaultId
  assert (record.vault.creator = owner) "Only creator can set access registry"
  pure ({ v with accessRegistry := Function.update v.accessRegistry vaultId (some registry) }, [])

def deactivateVault (owner : Address) (vaultId : ℕ) : Result (Output Vaults) := do
  requireAuth env owner
  let record ← loadVaultRecord v vaultId
  assert (record.vault.creator = owner) "Only creator can deactivate vault"
  assert (record.vault.isActive = true) "Vault is already inactive"
  pure (saveVaultRecord v vaultId { record with vault := { record.vault with isActive := false } }, [])

/-! ## Proof of life -/

def recordLife (record : VaultRecord) (timestamp : ℕ) : VaultRecord :=
  { record with
    releaseState := { record.releaseState with
      lastProofOfLife := timestamp, lastProofOfLifeSequence := env.sequence } }

def proveLife (owner : Address) (vaultId : ℕ) : Result (Output (Vaults × Release)) := do
  requireAuth env owner
  let record ← loadVaultRecord v vaultId
  assert (record.vault.creator = owner) "Only creator can record proof of life"
  assert (record.vault.isActive = true) "Vault not active"
  pure ((saveVaultRecord v vaultId (recordLife env record env.timestamp), r),
    [.proveLife vaultId owner env.timestamp])

def authorizeKeeper (owner : Address) (vaultId : ℕ) (keeper : Address) (expiresAt : ℕ) :
    Result (Output (Vaults × Release)) := do
  requireAuth env owner
  let record ← tryLoadVaultRecord v vaultId
  revertIf (record.vault.creator ≠ owner) (.relayer .OnlyCreator)
  revertIf (record.vault.isActive = false) (.relayer .VaultNotActive)
  revertIf (expiresAt ≤ env.timestamp) (.relayer .ExpiryInPast)
  pure ((v, { r with keeperAuth := Function.update r.keeperAuth vaultId (some { keeper, expiresAt }) }), [])

def revokeKeeper (owner : Address) (vaultId : ℕ) : Result (Output (Vaults × Release)) := do
  requireAuth env owner
  let record ← tryLoadVaultRecord v vaultId
  revertIf (record.vault.creator ≠ owner) (.relayer .OnlyCreator)
  pure ((v, { r with keeperAuth := Function.update r.keeperAuth vaultId none }), [])

def proveLifeByKeeper (keeper : Address) (vaultId : ℕ) : Result (Output (Vaults × Release)) := do
  requireAuth env keeper
  let record ← tryLoadVaultRecord v vaultId
  revertIf (record.vault.isActive = false) (.relayer .VaultNotActive)
  let authorization ← okOr (r.keeperAuth vaultId) .NoKeeperAuthorized
  revertIf (authorization.keeper ≠ keeper) (.relayer .KeeperMismatch)
  revertIf (authorization.expiresAt ≤ env.timestamp) (.relayer .KeeperAuthorizationExpired)
  pure ((saveVaultRecord v vaultId (recordLife env record env.timestamp), r), [])

def bindCrossChainHeartbeat (owner : Address) (vaultId : ℕ) (gidHash : Bytes32)
    (evmOwner : EvmAddress) (relayer : Address) : Result (Output (Vaults × Release)) := do
  requireAuth env owner
  let record ← loadVaultRecord v vaultId
  assert (record.vault.creator = owner) "Only creator can bind heartbeat"
  assert (record.vault.isActive = true) "Vault not active"
  pure ((v, { r with
      crossChainHeartbeat := Function.update r.crossChainHeartbeat vaultId
        (some { gidHash, evmOwner, relayer }) }), [])

def heartbeatPayload (gidHash : Bytes32) (evmVaultId : ℕ) (evmOwner : EvmAddress) (timestamp : ℕ) : Bytes :=
  ascii "SpooVaultProofOfLife" ++ word gidHash.toNat ++ bytesBE 8 evmVaultId ++
    bytesBE 20 evmOwner.toNat ++ bytesBE 8 timestamp

def syncProofOfLife (relayer : Address) (vaultId evmVaultId : ℕ) (gidHash : Bytes32)
    (evmOwner : EvmAddress) (timestamp : ℕ) (signature : Signature) (recoveryId : ℕ) :
    Result (Output (Vaults × Release)) := do
  requireAuth env relayer
  let binding ← expect (r.crossChainHeartbeat vaultId) "Cross-chain heartbeat not configured"
  assert (binding.relayer = relayer) "Unauthorized relayer"
  assert (binding.gidHash = gidHash) "Vault GID mismatch"
  assert (binding.evmOwner = evmOwner) "EVM owner mismatch"
  let record ← loadVaultRecord v vaultId
  assert (record.releaseState.lastProofOfLife < timestamp) "Stale heartbeat"
  assert (timestamp ≤ saturatingAdd64 env.timestamp 300) "Future heartbeat"
  let messageHash := host.keccak256 (heartbeatPayload gidHash evmVaultId evmOwner timestamp)
  match host.secp256k1Recover (ethSignedMessage host messageHash) signature recoveryId with
  | none => .error .host
  | some recovered =>
    -- the whole SEC1 key is hashed here, its first byte included
    let recoveredOwner := evmAddressOf (host.keccak256 recovered)
    assert (recoveredOwner = evmOwner) "Invalid heartbeat signature"
    pure ((saveVaultRecord v vaultId (recordLife env record timestamp), r),
      [.proofLifeSynced vaultId gidHash evmOwner timestamp])

/-! ## Release conditions -/

def configureVaultRelease (owner : Address) (vaultId inactivityPeriod : ℕ) :
    Result (Output (Vaults × Release)) := do
  requireAuth env owner
  let record ← loadVaultRecord v vaultId
  assert (record.vault.creator = owner) "Only creator can configure release"
  assert (record.vault.isActive = true) "Vault not active"
  assert (days 1 ≤ inactivityPeriod ∧ inactivityPeriod ≤ days 365)
    "Inactivity period must be between 1 and 365 days"
  pure ((saveVaultRecord v vaultId
    { record with releaseState := { record.releaseState with inactivityPeriod } }, r), [])

def setEmergencyMode (owner : Address) (vaultId : ℕ) (enabled : Bool) :
    Result (Output (Vaults × Release)) := do
  requireAuth env owner
  let record ← loadVaultRecord v vaultId
  assert (record.vault.creator = owner) "Only creator can set emergency mode"
  assert (record.vault.isActive = true) "Vault not active"
  let saved := saveVaultRecord v vaultId
    { record with releaseState := { record.releaseState with emergencyMode := enabled } }
  if enabled then
    assert (∀ existing ∈ r.emergencyUnlock vaultId, existing.fulfilled = true)
      "Emergency unlock delay already pending"
    let cycle := saturatingAdd64 (r.emergencyUnlockCycle vaultId) 1
    pure ((saved, { r with
        emergencyUnlockCycle := Function.update r.emergencyUnlockCycle vaultId cycle
        emergencyUnlock := Function.update r.emergencyUnlock vaultId (some
          { cycle, requestSequence := env.sequence, fulfilled := false, unlockAt := 0
            unlockSequence := 0, jitterSeconds := 0 }) }),
      [.emergencyMode vaultId enabled, .emergencyUnlockRequested vaultId env.sequence])
  else
    pure ((saved, { r with emergencyUnlock := Function.update r.emergencyUnlock vaultId none }),
      [.emergencyMode vaultId enabled])

def MIN_JITTER_WINDOW : ℕ := minutes 5
def MAX_JITTER_WINDOW : ℕ := days 7
def DEFAULT_EMERGENCY_JITTER_WINDOW : ℕ := minutes 60
def EMERGENCY_UNLOCK_BASE_DELAY : ℕ := minutes 10
def MIN_EMERGENCY_UNLOCK_CONFIRMATIONS : ℕ := 3
def MIN_EMERGENCY_UNLOCK_SEQUENCE_DELTA : ℕ := 256
def EMERGENCY_SECONDS_PER_LEDGER : ℕ := 5
def MIN_POST_DEATH_SEQUENCE_DELTA : ℕ := 256

def setEmergencyJitterWindow (owner : Address) (vaultId jitterWindow : ℕ) :
    Result (Output (Vaults × Release)) := do
  requireAuth env owner
  let record ← loadVaultRecord v vaultId
  assert (record.vault.creator = owner) "Only creator can set emergency jitter window"
  assert (MIN_JITTER_WINDOW ≤ jitterWindow ∧ jitterWindow ≤ MAX_JITTER_WINDOW) "Invalid jitter window"
  pure ((v, { r with
      emergencyJitterWindow := Function.update r.emergencyJitterWindow vaultId (some jitterWindow) }),
    [.emergencyJitterWindow vaultId jitterWindow])

/-- The schedule once the randomness is drawn. -/
def scheduleUnlock (schedule : EmergencyUnlockSchedule) (window : ℕ) : EmergencyUnlockSchedule :=
  let jitter := env.prng % window
  let extraLedgers := jitter / EMERGENCY_SECONDS_PER_LEDGER % 2 ^ 32
  let baseDelayLedgers := EMERGENCY_UNLOCK_BASE_DELAY / EMERGENCY_SECONDS_PER_LEDGER % 2 ^ 32
  { schedule with
    fulfilled := true
    jitterSeconds := jitter
    unlockAt := env.timestamp + EMERGENCY_UNLOCK_BASE_DELAY + jitter
    unlockSequence := saturatingAdd32 (saturatingAdd32 (saturatingAdd32 env.sequence baseDelayLedgers)
      MIN_EMERGENCY_UNLOCK_SEQUENCE_DELTA) extraLedgers }

def fulfillEmergencyUnlockDelay (vaultId : ℕ) : Result (Output (Vaults × Release)) := do
  let record ← loadVaultRecord v vaultId
  assert (record.releaseState.emergencyMode = true) "Emergency mode is not enabled"
  let schedule ← expect (r.emergencyUnlock vaultId) "No emergency unlock request"
  assert (schedule.fulfilled = false) "Emergency unlock already fulfilled"
  assert (schedule.cycle = r.emergencyUnlockCycle vaultId ∧ schedule.cycle ≠ 0)
    "Stale emergency unlock request"
  assert (schedule.requestSequence + MIN_EMERGENCY_UNLOCK_CONFIRMATIONS ≤ env.sequence)
    "Emergency unlock confirmations not met"
  let window := (r.emergencyJitterWindow vaultId).getD DEFAULT_EMERGENCY_JITTER_WINDOW
  assert (0 < window) "Invalid jitter window"
  let scheduled := scheduleUnlock env schedule window
  pure ((v, { r with emergencyUnlock := Function.update r.emergencyUnlock vaultId (some scheduled) }),
    [.emergencyUnlockScheduled vaultId scheduled.unlockAt scheduled.unlockSequence scheduled.jitterSeconds])

def isEmergencyUnlockMature (vaultId : ℕ) : Bool :=
  match r.emergencyUnlock vaultId with
  | none => false
  | some schedule => schedule.fulfilled && decide (schedule.unlockAt ≤ env.timestamp) &&
      decide (schedule.unlockSequence ≤ env.sequence)

def isReleaseConditionSatisfied (vaultId : ℕ) (state : VaultReleaseState) (condition : ReleaseCondition) :
    Bool :=
  let timestampExpired := decide (state.lastProofOfLife + state.inactivityPeriod ≤ env.timestamp)
  let sequenceElapsed :=
    decide (state.lastProofOfLifeSequence + MIN_POST_DEATH_SEQUENCE_DELTA ≤ env.sequence)
  let isDead := timestampExpired && sequenceElapsed
  match condition with
  | .Anytime => true
  | .LiveOnly => !isDead
  | .EmergencyOnly => isDead || (state.emergencyMode && isEmergencyUnlockMature env r vaultId)
  | .PostDeathOnly => isDead

end ChainGuard.Soroban
