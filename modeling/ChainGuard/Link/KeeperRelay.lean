import ChainGuard.Library.Counters
import ChainGuard.Evm.PostDeath
import ChainGuard.Evm.Roster

/-! The heartbeat relay beside the contract. A job reads the keeper's authorization and the clock, then
the release state, and sends a proof of life once half the inactivity period is over; calls of
anyone come in between. A keeper is the one that the last call about the vault wrote, and when jobs
start often enough and end soon enough, the vault stays locked. -/
namespace ChainGuard.Link
open Evm Guarded History
set_option autoImplicit false

/-- The next job starts `cadence` after the last one did, a started job ends within `latency`, and the
keeper's clock is at most `skew` behind the block. -/
structure Pace where
  cadence : ℕ
  latency : ℕ
  skew : ℕ
  round : 2 * (cadence + latency + skew) ≤ days 1

variable {L : Type} {chain : Chain} {nft : ERC721 L} {v : ℕ} {p : Pace} {keeper : Address}

/-! ## The job -/

def getVaultReleaseState (env : Env) (s : State L) (vaultId : ℕ) : Result (Bool × ℕ × ℕ × Bool) := do
  revertIf (s.frame ≠ none) .ReentrantCall
  revertIf ((s.governance.vaults vaultId).id = 0) .VaultNotExist
  let state := s.release.vaultReleaseStates vaultId
  let unlocked ← isPostDeathUnlocked env s.release vaultId
  pure (state.emergencyMode, state.inactivityPeriod, state.lastProofOfLife, unlocked)

/-- What `checkAndRelay` waits for. -/
inductive Job
  | idle
  | releaseState (nowSeconds : ℕ)
  | receipt
  deriving DecidableEq

def checkAuthorization (s : State L) (keeperAddress : Address) (vaultId nowSeconds : ℕ) : Job :=
  let authorization := s.release.keeperAuthorizations vaultId
  if authorization.keeper ≠ keeperAddress then .idle
  else if authorization.expiresAt ≤ nowSeconds then .idle
  else .releaseState nowSeconds

def checkDue (env : Env) (s : State L) (vaultId nowSeconds : ℕ) : Job :=
  match getVaultReleaseState env s vaultId with
  | .error _ => .idle
  | .ok (_, inactivityPeriod, lastProofOfLife, _) =>
    -- `elapsed < dueAt`, with `dueAt` half the period; `elapsed` is negative for a slow clock
    if 2 * ((nowSeconds : ℤ) - lastProofOfLife) < inactivityPeriod then .idle else .receipt

structure Relay (L : Type) where
  contract : State L
  job : Job := .idle
  /-- The block time when the last job started. -/
  startedAt : ℕ

inductive Action
  | call (c : Call)
  | start (nowSeconds : ℕ)
  | read
  | mined

def clockRead : Action → Option ℕ
  | .start nowSeconds => some nowSeconds
  | _ => none

/-- The requests of a job are answered between transactions, and its own transaction may revert. -/
def act (chain : Chain) (nft : ERC721 L) (keeper : Address) (v : ℕ) (s : Relay L) :
    Env × Action → Result (Relay L)
  | (env, .call c) => do
    let contract ← exec chain nft env s.contract c
    pure { s with contract }
  | (env, .start nowSeconds) => do
    revertIf (s.contract.frame ≠ none ∨ s.job ≠ .idle) .Panic
    pure { s with job := checkAuthorization s.contract keeper v nowSeconds, startedAt := env.timestamp }
  | (env, .read) =>
    match s.job with
    | .releaseState nowSeconds => do
      revertIf (s.contract.frame ≠ none) .Panic
      pure { s with job := checkDue env s.contract v nowSeconds }
    | _ => .error .Panic
  | (env, .mined) => do
    revertIf (s.contract.frame ≠ none ∨ s.job ≠ .receipt ∨ env.sender ≠ keeper) .Panic
    let contract := match exec chain nft env s.contract (.release (.proveLifeByKeeper v)) with
      | .ok contract => contract
      | .error _ => s.contract
    pure { s with contract, job := .idle }

def RelaySteps (chain : Chain) (nft : ERC721 L) (keeper : Address) (v : ℕ) (s : Relay L)
    (i : Env × Action) (s' : Relay L) : Prop := act chain nft keeper v s i = .ok s'

def deadline (p : Pace) (s : Relay L) : ℕ := s.startedAt + if s.job = .idle then p.cadence else p.latency

/-- An action on time, with the keeper authorized. -/
@[mk_iff] structure Timely (keeper : Address) (v : ℕ) (p : Pace) (s : Relay L) (i : Env × Action) : Prop where
  started : s.startedAt ≤ i.1.timestamp
  paced : i.1.timestamp ≤ deadline p s
  narrow : i.1.timestamp + days 365 < 2 ^ 40
  authorized : (s.contract.release.keeperAuthorizations v).keeper = keeper
  unexpired : i.1.timestamp < (s.contract.release.keeperAuthorizations v).expiresAt
  clock : ∀ nowSeconds ∈ clockRead i.2, i.1.timestamp ≤ nowSeconds + p.skew ∧
    nowSeconds < (s.contract.release.keeperAuthorizations v).expiresAt

instance (s : Relay L) (i : Env × Action) : Decidable (Timely keeper v p s i) :=
  decidable_of_iff _ (timely_iff keeper v p s i).symm

/-! ## Keepers -/

section Keepers
variable {s s' : State L} {hist : List (Transition (State L) Invocation)}

/-- The vault whose authorization a call writes, and what it writes. -/
def keeperWritten (t : Transition (State L) Invocation) : Option (ℕ × KeeperAuthorization) :=
  match t.label.2 with
  | .release (.authorizeKeeperBySig vaultId keeper expiresAt _) => some (vaultId, { keeper, expiresAt })
  | .release (.revokeKeeper vaultId) => some (vaultId, {})
  | _ => none

/-- The vault whose nonce a signature uses up, and the next one. -/
def keeperNonce (t : Transition (State L) Invocation) : Option (ℕ × ℕ) :=
  match t.label.2 with
  | .release (.authorizeKeeperBySig vaultId _ _ _) => some (vaultId, t.pre.release.keeperAuthNonces vaultId + 1)
  | _ => none

/-- An authorization carries the creator's signature over the vault's nonce. -/
def Signed (chain : Chain) (t : Transition (State L) Invocation) : Prop :=
  ∀ vaultId keeper expiresAt signature,
    t.label.2 = .release (.authorizeKeeperBySig vaultId keeper expiresAt signature) →
    chain.tryRecover (hashTypedDataV4 chain (chain.keccak256 (abiEncode
      [(KEEPER_AUTHORIZATION_TYPEHASH chain).toNat, vaultId, keeper.toNat, expiresAt,
        t.pre.release.keeperAuthNonces vaultId]))) signature = some (t.pre.governance.vaults vaultId).creator

structure KeeperStep (chain : Chain) (t : Transition (State L) Invocation) : Prop where
  keepers : t.post.release.keeperAuthorizations = match keeperWritten t with
    | some (v, authorization) => Function.update t.pre.release.keeperAuthorizations v authorization
    | none => t.pre.release.keeperAuthorizations
  nonces : Counters.Effect (fun s => s.release.keeperAuthNonces) keeperNonce t
  signed : Signed chain t

theorem execRelease_keeper {env : Env} {c : ReleaseCall} {r' : Release} {logs : List Event}
    (h : execRelease chain env s c = .ok (r', logs)) :
    KeeperStep chain ⟨s, (env, .release c), { s with release := r', logs }⟩ := by
  cases c with
  | authorizeKeeperBySig w keeper expiresAt signature =>
    simp only [execRelease, authorizeKeeperBySig, ↓revertIf_bind] at h
    obtain ⟨_, _, _, h⟩ := h
    split at h
    · next signer hsigner =>
      simp only [bind_ok, revertIf_ok, exists_const, pure_ok, Prod.mk.injEq, not_not] at h
      obtain ⟨_, rfl, rfl, rfl, _⟩ := h
      refine ⟨rfl, .accepts w _ rfl (Nat.lt_succ_self _) rfl, ?_⟩
      rintro _ _ _ _ ⟨⟩
      exact hsigner
    · cases h
  | revokeKeeper w =>
    simp only [execRelease, revokeKeeper, ↓revertIf_bind, pure_ok, Prod.mk.injEq] at h
    obtain ⟨_, _, rfl, _⟩ := h
    exact ⟨rfl, .kept rfl rfl, by rintro _ _ _ _ ⟨⟩⟩
  | _ =>
    have hkept : r'.keeperAuthorizations = s.release.keeperAuthorizations ∧
        r'.keeperAuthNonces = s.release.keeperAuthNonces := by
      simp only [execRelease, configureVaultRelease, proveLife, proveLifeByKeeper, setBeneficiary, configureVrf,
        setEmergencyJitterWindow, rawFulfillRandomWords, recordProofOfLife, recordBlockTimestamp, bind_ok,
        revertIf_ok, exists_const, pure_ok, Prod.mk.injEq] at h
      grind
    exact ⟨hkept.1, .kept rfl hkept.2, by rintro _ _ _ _ ⟨⟩⟩

theorem keeper_step {i : Invocation} (h : Steps chain nft s i s') : KeeperStep chain ⟨s, i, s'⟩ := by
  cases h.effect with
  | release hcall => exact execRelease_keeper hcall
  | @emergency env w enabled release frame logs _ hcall =>
    have hkept : release.keeperAuthorizations = s.release.keeperAuthorizations ∧
        release.keeperAuthNonces = s.release.keeperAuthNonces := by
      simp only [setEmergencyMode, ↓revertIf_bind] at hcall
      grind [bind_ok, pure_ok]
    exact ⟨hkept.1, .kept rfl hkept.2, by rintro _ _ _ _ ⟨⟩⟩
  | _ => exact ⟨rfl, .kept rfl rfl, by rintro _ _ _ _ ⟨⟩⟩

/-- The keeper of a vault is the one that the last call about it wrote, each authorization was signed by
the creator, and no nonce served twice. -/
theorem keepers_from_history (h : VaultRun chain nft hist s) :
    (∀ v, s.release.keeperAuthorizations v = ((hist.filterMap keeperWritten).lookup v).getD {}) ∧
      (∀ t ∈ hist, Signed chain t) ∧ (hist.filterMap keeperNonce).Nodup := by
  refine ⟨fun v => ?_, fun t ht => ?_, Counters.nodup (fun _ _ _ hstep => (keeper_step hstep).nonces) h⟩
  · induction h with
    | start hinit =>
      obtain ⟨deployer, rfl⟩ := hinit
      rfl
    | @next hist s s' i _ hstep ih =>
      have hkeepers := (keeper_step hstep).keepers
      dsimp only at hkeepers
      rw [List.filterMap_cons, hkeepers]
      cases keeperWritten ⟨s, i, s'⟩ with
      | none => exact ih
      | some write =>
        dsimp only
        rw [List.lookup_cons, Function.update_apply, ih]
        by_cases hv : v = write.1
        · simp [hv]
        · simp [hv, beq_false_of_ne hv]
  · obtain ⟨_, _, _, hstep⟩ := h.visits_of_mem ht
    exact (keeper_step hstep).signed

theorem keepers_from_history_revoked : ∃ hist s, VaultRun localChain ERC721.standard hist s ∧
    hist.filterMap keeperNonce = [(1, 2), (1, 1)] ∧ (s.release.keeperAuthorizations 1).keeper = 0 ∧
    ∀ t ∈ hist, Signed localChain t := by
  obtain ⟨hist, s, hrun, hend⟩ := exists_run localChain ERC721.standard 7
    [(callBy 1 100, .createVault (ascii "vault") [] [2] 1),
      (callBy 9 200, .release (.authorizeKeeperBySig 1 7 500 (word 1 ++ bytesBE 20 1))),
      (callBy 9 210, .release (.authorizeKeeperBySig 1 8 600 (word 1 ++ bytesBE 20 1))),
      (callBy 1 300, .release (.revokeKeeper 1))]
    (fun hist _ => decide (hist.filterMap keeperNonce = [(1, 2), (1, 1)] ∧
      (((hist.filterMap keeperWritten).lookup 1).getD {}).keeper = 0)) (by decide +kernel)
  obtain ⟨hnonces, hkeeper⟩ := of_decide_eq_true hend
  obtain ⟨hlast, hsigned, _⟩ := keepers_from_history hrun
  exact ⟨hist, s, hrun, hnonces, (hlast 1).symm ▸ hkeeper, hsigned⟩

end Keepers

/-! ## What calls leave of a vault -/

abbrev releaseOf (s : State L) (v : ℕ) : VaultReleaseState := s.release.vaultReleaseStates v

/-- A vault in force, under a period that the contract admits. -/
structure InForce (s : State L) (v : ℕ) : Prop where
  existing : (s.governance.vaults v).id ≠ 0
  numbered : (s.governance.vaults v).id = uint64 v
  active : (s.governance.vaults v).isActive = true
  low : days 1 ≤ (releaseOf s v).inactivityPeriod
  high : (releaseOf s v).inactivityPeriod ≤ days 365

/-- A call keeps the period and the last proof of life of a vault, or takes a new proof of life. -/
theorem period_step {s s' : State L} {i : Invocation} (h : Steps chain nft s i s') (v : ℕ) :
    ((releaseOf s' v).lastProofOfLife = (releaseOf s v).lastProofOfLife ∨
        (releaseOf s' v).lastProofOfLife = uint40 i.1.timestamp) ∧
      ((releaseOf s' v).inactivityPeriod = (releaseOf s v).inactivityPeriod ∨
        (releaseOf s' v).lastProofOfLife = uint40 i.1.timestamp ∧
          days 1 ≤ (releaseOf s' v).inactivityPeriod ∧ (releaseOf s' v).inactivityPeriod ≤ days 365) := by
  unfold releaseOf
  cases h.effect with
  | release hcall =>
    cases execRelease_effect hcall with
    | @configured w inactivityPeriod hlow hhigh =>
      have hword : uint40 inactivityPeriod = inactivityPeriod :=
        Nat.mod_eq_of_lt (lt_of_le_of_lt hhigh (by simp [days]))
      by_cases hv : v = w
      · simp [hv, hword, hlow, hhigh]
      · simp [hv]
    | @proved _ w _ =>
      by_cases hv : v = w
      · simp [hv, recordProofOfLife, recordBlockTimestamp]
      · simp [hv, recordProofOfLife, recordBlockTimestamp]
    | fulfilled => exact ⟨.inl rfl, .inl rfl⟩
    | other _ _ _ hstates => simp [hstates]
  | @createVault env _ _ _ _ governance _ =>
    by_cases hv : v = governance.vaultIdCounter
    · simp [hv, openVaultRelease, days]
    · simp [hv, openVaultRelease]
  | @emergency _ w enabled release _ _ _ hcall =>
    simp only [(setEmergencyMode_ok hcall).states]
    by_cases hv : v = w
    · simp [hv]
    · simp [hv]
  | _ => exact ⟨.inl rfl, .inl rfl⟩

/-- A call opens the vault, or leaves its id and its flag. -/
theorem vault_step {s s' : State L} {i : Invocation} (h : Steps chain nft s i s') (v : ℕ) :
    ((s'.governance.vaults v).id = uint64 v ∧ (s'.governance.vaults v).isActive = true ∧
      (releaseOf s' v).inactivityPeriod = days 30) ∨
    ((s'.governance.vaults v).id = (s.governance.vaults v).id ∧
      (s'.governance.vaults v).isActive = (s.governance.vaults v).isActive) := by
  unfold releaseOf
  cases h.effect with
  | createVault _ hcreate =>
    obtain ⟨_, _, rfl⟩ := createVault_ok hcreate
    by_cases hv : v = s.governance.vaultIdCounter + 1
    · simp [hv, openVaultRelease]
    · simp [hv]
  | governance _ hexec =>
    obtain ⟨hroster, hcounter⟩ := execGovernance_roster hexec
    refine .inr ?_
    cases hroster with
    | kept _ hvaults _ => simp [hvaults]
    | created hcreated =>
      have hnext := hcreated.counter
      omega
    | joined w hjoined =>
      rw [hjoined.vaults]
      by_cases hv : v = w
      · simp [hv]
      · simp [hv]
    | reconfigured w a n _ hreconfigured =>
      obtain ⟨vault, hresult, hnew⟩ := hreconfigured.result
      rw [hresult]
      by_cases hv : v = w
      · simp [hv, hnew]
      · simp [hv]
  | _ => exact .inr ⟨rfl, rfl⟩

theorem inForce_step {s s' : State L} {i : Invocation} (h : Steps chain nft s i s')
    (hold : (s.governance.vaults v).id ≠ 0 → InForce s v) (hid : (s'.governance.vaults v).id ≠ 0) :
    InForce s' v := by
  rcases vault_step h v with ⟨hnumber, hactive, hperiod⟩ | ⟨hkept, hactive⟩
  · refine ⟨hid, hnumber, hactive, ?_, ?_⟩
    · simp [hperiod, days]
    · simp [hperiod, days]
  · have hforce := hold (hkept ▸ hid)
    obtain ⟨_, hperiod⟩ := period_step h v
    have hlow := hforce.low
    have hhigh := hforce.high
    refine ⟨hid, hkept.trans hforce.numbered, hactive.trans hforce.active, ?_, ?_⟩
    · omega
    · omega

theorem inForce {hist : List (Transition (State L) Invocation)} {s : State L}
    (h : VaultRun chain nft hist s) : (s.governance.vaults v).id ≠ 0 → InForce s v := by
  refine h.invariant (I := fun s => (s.governance.vaults v).id ≠ 0 → InForce s v) ?_ ?_
  · rintro s ⟨deployer, rfl⟩ hid
    exact (hid rfl).elim
  · intro s i s' hold hstep hid
    exact inForce_step hstep hold hid

/-! ## Rounds of the relay -/

/-- A relay between two jobs, in a vault that outlives the next round. -/
structure Fresh (chain : Chain) (nft : ERC721 L) (v : ℕ) (p : Pace) (s : Relay L) : Prop where
  reachable : ∃ hist, VaultRun chain nft hist s.contract
  existing : (s.contract.governance.vaults v).id ≠ 0
  idle : s.job = .idle
  narrow : (releaseOf s.contract v).lastProofOfLife + days 365 < 2 ^ 40
  alive : s.startedAt + p.cadence + p.latency <
    (releaseOf s.contract v).lastProofOfLife + (releaseOf s.contract v).inactivityPeriod

/-- Between two jobs the vault outlives the next job; within a job it outlives that job. -/
structure Heard (v : ℕ) (p : Pace) (s : Relay L) : Prop where
  force : InForce s.contract v
  narrow : (releaseOf s.contract v).lastProofOfLife + days 365 < 2 ^ 40
  alive : s.startedAt + p.latency + (if s.job = .idle then p.cadence else 0) <
    (releaseOf s.contract v).lastProofOfLife + (releaseOf s.contract v).inactivityPeriod
  clock : ∀ nowSeconds, s.job = .releaseState nowSeconds → s.startedAt ≤ nowSeconds + p.skew

variable {s s' : Relay L}

theorem Heard.locked (h : Heard v p s) {env : Env} (hin : env.timestamp ≤ deadline p s) :
    isPostDeathUnlocked env s.contract.release v = .ok false := by
  have hlow := h.force.low
  have hhigh := h.force.high
  have hlast := h.narrow
  have hlater : env.timestamp <
      (releaseOf s.contract v).lastProofOfLife + (releaseOf s.contract v).inactivityPeriod := by
    have halive := h.alive
    unfold deadline at hin
    split_ifs at hin halive
    · omega
    · omega
  simp only [days] at hlow hhigh hlast
  have hperiod : (releaseOf s.contract v).inactivityPeriod ≠ 0 := by omega
  have hfits : (releaseOf s.contract v).lastProofOfLife + (releaseOf s.contract v).inactivityPeriod <
      2 ^ 40 := by omega
  simp only [isPostDeathUnlocked, hperiod, ↓reduceIte, ↓revertIf_bind, not_le.mpr hfits,
    not_le.mpr hlater, decide_false, Bool.false_and, pure_ok, not_false_eq_true, and_self]

/-- A call keeps what the relay relies on, or is itself a proof of life. -/
theorem Heard.call {contract : State L} {i : Invocation} (h : Heard v p s)
    (hstep : Steps chain nft s.contract i contract) (hstarted : s.startedAt ≤ i.1.timestamp)
    (hnarrow : i.1.timestamp + days 365 < 2 ^ 40) :
    Heard v p { s with contract } := by
  have hid : (contract.governance.vaults v).id ≠ 0 := by
    have hexisting := h.force.existing
    have hnumber := h.force.numbered
    rcases vault_step hstep v with ⟨hopened, _⟩ | ⟨hkept, _⟩
    · rwa [hopened, ← hnumber]
    · rwa [hkept]
  have hforce := inForce_step hstep (fun _ => h.force) hid
  have hlast := h.narrow
  have halive := h.alive
  have hlow := hforce.low
  have hword : uint40 i.1.timestamp = i.1.timestamp := Nat.mod_eq_of_lt (by omega)
  obtain ⟨hproof, hperiod⟩ := period_step hstep v
  have hround := p.round
  simp only [days] at hround hlow hperiod
  refine ⟨hforce, ?_, ?_, h.clock⟩
  · dsimp only
    omega
  · dsimp only
    split_ifs at halive ⊢
    · omega
    · omega

/-- The transaction of a job goes through, and is a proof of life. -/
theorem Heard.mined {env : Env} (h : Heard v p s) (htimely : Timely env.sender v p s (env, .mined)) :
    ∃ contract, exec chain nft env s.contract (.release (.proveLifeByKeeper v)) = .ok contract ∧
      Heard v p { s with contract, job := .idle } := by
  have hexec : ∃ logs, exec chain nft env s.contract (.release (.proveLifeByKeeper v)) = .ok
      { s.contract with
        release := (recordProofOfLife chain env s.contract.governance s.contract.release v).1, logs } := by
    simp [exec, Call.guarded, execBody, execRelease, proveLifeByKeeper, bind_ok, h.force.existing,
      h.force.active, htimely.authorized, revertIf, not_le.mpr htimely.unexpired]
  obtain ⟨logs, hexec⟩ := hexec
  refine ⟨_, hexec, ?_⟩
  have hstep : Steps chain nft s.contract (env, .release (.proveLifeByKeeper v)) _ := hexec
  have hcalled := h.call hstep htimely.started htimely.narrow
  have hnarrow : env.timestamp + days 365 < 2 ^ 40 := htimely.narrow
  have hstarted : s.startedAt ≤ env.timestamp := htimely.started
  have hlow := h.force.low
  have hword : uint40 env.timestamp = env.timestamp := Nat.mod_eq_of_lt (by omega)
  have hround := p.round
  refine ⟨hcalled.force, hcalled.narrow, ?_, by simp⟩
  simp only [days, releaseOf, recordProofOfLife, recordBlockTimestamp, Function.update_self, hword,
    if_true] at hround hlow ⊢
  omega

theorem Heard.act {i : Env × Action} (h : Heard v p s) (htimely : Timely keeper v p s i)
    (hact : RelaySteps chain nft keeper v s i s') : Heard v p s' := by
  obtain ⟨env, action⟩ := i
  have hpaced := htimely.paced
  have halive := h.alive
  unfold RelaySteps at hact
  cases action with
  | call c =>
    simp only [Link.act, bind_ok, pure_ok] at hact
    obtain ⟨contract, hcall, rfl⟩ := hact
    have hstep : Steps chain nft s.contract (env, c) contract := hcall
    exact h.call hstep htimely.started htimely.narrow
  | start nowSeconds =>
    simp only [Link.act, ↓revertIf_bind, pure_ok, not_or, not_not] at hact
    obtain ⟨⟨_, hidle⟩, rfl⟩ := hact
    obtain ⟨hslow, hvalid⟩ := htimely.clock nowSeconds rfl
    simp only [deadline, hidle, if_true] at hpaced halive
    have hchecked : checkAuthorization s.contract keeper v nowSeconds = .releaseState nowSeconds := by
      simp [checkAuthorization, htimely.authorized, not_le.mpr hvalid]
    refine ⟨h.force, h.narrow, ?_, ?_⟩
    · simp only [hchecked, reduceCtorEq, if_false]
      omega
    · intro now hjob
      rw [hchecked] at hjob
      cases hjob
      exact hslow
  | read =>
    simp only [Link.act] at hact
    split at hact
    · next nowSeconds hjob =>
      simp only [↓revertIf_bind, pure_ok, not_not] at hact
      obtain ⟨hframe, rfl⟩ := hact
      have hstate : getVaultReleaseState env s.contract v = .ok
          ((releaseOf s.contract v).emergencyMode, (releaseOf s.contract v).inactivityPeriod,
            (releaseOf s.contract v).lastProofOfLife, false) := by
        simp [getVaultReleaseState, hframe, h.force.existing, h.locked hpaced, bind_ok]
      have hlow := h.force.low
      have hslow := h.clock nowSeconds hjob
      have hround := p.round
      simp only [checkDue, hstate]
      split_ifs with hdue
      · refine ⟨h.force, h.narrow, ?_, by simp⟩
        simp only [if_true]
        omega
      · refine ⟨h.force, h.narrow, ?_, by simp⟩
        simpa [hjob] using halive
    · cases hact
  | mined =>
    simp only [Link.act, ↓revertIf_bind, pure_ok, not_or, not_not] at hact
    obtain ⟨⟨_, _, rfl⟩, rfl⟩ := hact
    obtain ⟨contract, hexec, hmined⟩ := @Heard.mined _ chain nft _ _ _ _ h htimely
    rw [hexec]
    exact hmined

/-- While jobs come in time and the keeper stays authorized, no call of anyone lets the vault unlock. -/
theorem relay_keeps_locked {s₀ : Relay L} {hist : List (Transition (Relay L) (Env × Action))}
    (hrun : RunFrom (RelaySteps chain nft keeper v) s₀ hist s) (hfresh : Fresh chain nft v p s₀)
    (htimely : ∀ t ∈ hist, Timely keeper v p t.pre t.label) :
    ∀ env : Env, env.timestamp ≤ deadline p s →
      isPostDeathUnlocked env s.contract.release v = .ok false := by
  have hheard : Heard v p s := by
    refine hrun.relates_of (R := fun _ s => Heard v p s)
      (C := fun t => Timely keeper v p t.pre t.label) ?_ ?_ htimely
    · rintro s rfl
      obtain ⟨hist, hreach⟩ := hfresh.reachable
      have halive := hfresh.alive
      refine ⟨inForce hreach hfresh.existing, hfresh.narrow, ?_, by simp [hfresh.idle]⟩
      simp only [hfresh.idle, if_true]
      omega
    · intro hist s i s' _ h ht hstep
      exact h.act ht hstep
  intro env hin
  exact hheard.locked hin

def dailyPace : Pace := ⟨30000, 1000, 10, by decide⟩

/-- The shortest period is over, but the second job relayed a heartbeat. -/
theorem relay_keeps_locked_day : ∃ s₀ hist s,
    RunFrom (RelaySteps localChain ERC721.standard 7 1) s₀ hist s ∧
    (releaseOf s₀.contract 1).lastProofOfLife = 300 ∧ (releaseOf s.contract 1).lastProofOfLife = 60500 ∧
    isPostDeathUnlocked (callBy 9 86800) s.contract.release 1 = .ok false := by
  obtain ⟨hist₀, s₀, hreach, hend⟩ := exists_run localChain ERC721.standard 7
    [(callBy 1 100, .createVault (ascii "vault") [] [2] 1),
      (callBy 9 200, .release (.authorizeKeeperBySig 1 7 (days 30) (word 1 ++ bytesBE 20 1))),
      (callBy 1 300, .release (.configureVaultRelease 1 (days 1)))]
    (fun _ s => decide ((s.governance.vaults 1).id ≠ 0 ∧ (releaseOf s 1).lastProofOfLife = 300 ∧
        (releaseOf s 1).inactivityPeriod = days 1) &&
      endsIn (act localChain ERC721.standard 7 1) ⟨s, .idle, 300⟩
        [(callBy 7 30000, .start 29990), (callBy 7 30010, .read), (callBy 7 60000, .start 60000),
          (callBy 1 60100, .call (.release (.setBeneficiary 1 5))), (callBy 7 60200, .read),
          (callBy 7 60500, .mined)]
        fun hist s' => decide ((∀ t ∈ hist, Timely 7 1 dailyPace t.pre t.label) ∧
          (releaseOf s'.contract 1).lastProofOfLife = 60500 ∧ 86800 ≤ deadline dailyPace s'))
    (by decide +kernel)
  obtain ⟨hstart, hend⟩ := Bool.and_eq_true_iff.mp hend
  obtain ⟨hid, hlast, hperiod⟩ := of_decide_eq_true hstart
  obtain ⟨hist, s, hrun, hend⟩ := exists_runFrom_of_endsIn hend
  obtain ⟨htimely, hheard, hlate⟩ := of_decide_eq_true hend
  refine ⟨⟨s₀, .idle, 300⟩, hist, s, hrun, hlast, hheard, ?_⟩
  refine relay_keeps_locked hrun ⟨⟨hist₀, hreach⟩, hid, rfl, ?_, ?_⟩ htimely (callBy 9 86800) hlate
  · rw [hlast]
    decide
  · dsimp only
    rw [hlast, hperiod]
    decide

end ChainGuard.Link
