import ChainGuard.Evm.Contract

/-! What the calls that write the release state leave of what the release conditions read: the proofs
of life with their terms, and the schedules of the emergency unlock. -/
namespace ChainGuard.Evm
open Guarded
set_option autoImplicit false

variable {L : Type} {chain : Chain} {env : Env} {s : State L}

/-! ## The release family -/

/-- What the calls of the release family leave, as far as the release conditions read it. -/
inductive ReleaseEffect (chain : Chain) (env : Env) (s : State L) : ReleaseCall → Release → Prop
  | configured {w inactivityPeriod : ℕ} : days 1 ≤ inactivityPeriod → inactivityPeriod ≤ days 365 →
      ReleaseEffect chain env s (.configureVaultRelease w inactivityPeriod)
        { s.release with
          vaultReleaseStates := Function.update s.release.vaultReleaseStates w
            { s.release.vaultReleaseStates w with
              lastProofOfLife := uint40 env.timestamp, lastProofOfLifeBlock := uint40 env.number,
              inactivityPeriod := uint40 inactivityPeriod,
              targetBlocks := inactivityPeriod / getMedianBlockInterval s.release } }
  | proved {c : ReleaseCall} {w : ℕ} : c = .proveLife w ∨ c = .proveLifeByKeeper w →
      ReleaseEffect chain env s c (recordProofOfLife chain env s.governance s.release w).1
  | fulfilled {requestId : ℕ} {randomWords : List ℕ} {emergencyMode : Bool} {vrf : VrfStore}
      {events : List Event} :
      s.release.vrf.fulfill env requestId randomWords emergencyMode = .ok (vrf, events) →
      ReleaseEffect chain env s (.rawFulfillRandomWords requestId randomWords) { s.release with vrf }
  | other {c : ReleaseCall} {r' : Release} : (∀ w p, c ≠ .configureVaultRelease w p) →
      (∀ w, c ≠ .proveLife w ∧ c ≠ .proveLifeByKeeper w) →
      (∀ requestId randomWords, c ≠ .rawFulfillRandomWords requestId randomWords) →
      r'.vaultReleaseStates = s.release.vaultReleaseStates →
      r'.vrf.unlockAt = s.release.vrf.unlockAt → r'.vrf.unlockBlock = s.release.vrf.unlockBlock →
      ReleaseEffect chain env s c r'

theorem execRelease_effect {c : ReleaseCall} {r' : Release} {logs : List Event}
    (h : execRelease chain env s c = .ok (r', logs)) : ReleaseEffect chain env s c r' := by
  cases c with
  | configureVaultRelease w inactivityPeriod =>
    simp only [execRelease, configureVaultRelease, ↓revertIf_bind, pure_ok, Prod.mk.injEq, not_or,
      not_lt] at h
    obtain ⟨_, _, _, ⟨hlow, hhigh⟩, rfl, _⟩ := h
    exact .configured hlow hhigh
  | proveLife w =>
    simp only [execRelease, proveLife, ↓revertIf_bind, pure_ok] at h
    obtain ⟨_, _, _, h⟩ := h
    have hr : r' = (recordProofOfLife chain env s.governance s.release w).1 := by rw [h]
    rw [hr]
    exact .proved (.inl rfl)
  | proveLifeByKeeper w =>
    simp only [execRelease, proveLifeByKeeper, ↓revertIf_bind, pure_ok, Prod.mk.injEq] at h
    obtain ⟨_, _, _, _, rfl, _⟩ := h
    exact .proved (.inr rfl)
  | rawFulfillRandomWords requestId randomWords =>
    simp only [execRelease, rawFulfillRandomWords, bind_ok, pure_ok, Prod.mk.injEq] at h
    obtain ⟨_, hfulfill, rfl, _⟩ := h
    exact .fulfilled hfulfill
  | authorizeKeeperBySig w keeper expiresAt signature =>
    simp only [execRelease, authorizeKeeperBySig, ↓revertIf_bind] at h
    obtain ⟨_, _, _, h⟩ := h
    split at h
    · simp only [bind_ok, revertIf_ok, exists_const, pure_ok, Prod.mk.injEq] at h
      obtain ⟨_, _, _, rfl, _⟩ := h
      exact .other (by simp) (by simp) (by simp) rfl rfl rfl
    · cases h
  | revokeKeeper w =>
    simp only [execRelease, revokeKeeper, ↓revertIf_bind, pure_ok, Prod.mk.injEq] at h
    obtain ⟨_, _, rfl, _⟩ := h
    exact .other (by simp) (by simp) (by simp) rfl rfl rfl
  | setBeneficiary w beneficiary =>
    simp only [execRelease, setBeneficiary, ↓revertIf_bind, pure_ok, Prod.mk.injEq] at h
    obtain ⟨_, _, _, _, _, rfl, _⟩ := h
    exact .other (by simp) (by simp) (by simp) rfl rfl rfl
  | configureVrf coordinator keyHash subscriptionId callbackGasLimit minimumRequestConfirmations =>
    simp only [execRelease, configureVrf, ↓revertIf_bind, pure_ok, Prod.mk.injEq] at h
    obtain ⟨_, rfl, _⟩ := h
    exact .other (by simp) (by simp) (by simp) rfl rfl rfl
  | setEmergencyJitterWindow w jitterWindow =>
    simp only [execRelease, setEmergencyJitterWindow, ↓revertIf_bind, pure_ok, Prod.mk.injEq] at h
    obtain ⟨_, _, _, rfl, _⟩ := h
    exact .other (by simp) (by simp) (by simp) rfl rfl rfl

/-! ## Emergency mode -/

@[simp] theorem clear_unlockAt (vrf : VrfStore) (w v : ℕ) :
    (vrf.clear w).unlockAt v = if v = w then 0 else vrf.unlockAt v := by
  simp only [VrfStore.clear]
  split_ifs <;> simp_all

@[simp] theorem clear_unlockBlock (vrf : VrfStore) (w v : ℕ) :
    (vrf.clear w).unlockBlock v = if v = w then 0 else vrf.unlockBlock v := by
  simp only [VrfStore.clear]
  split_ifs <;> simp_all

/-- What `setEmergencyMode` leaves: the mode, and no schedule when there is a coordinator. -/
structure EmergencyModeSet (r : Release) (w : ℕ) (enabled : Bool) (r' : Release) : Prop where
  states : r'.vaultReleaseStates = Function.update r.vaultReleaseStates w
    { r.vaultReleaseStates w with emergencyMode := enabled }
  unlockAt : ∀ v, r'.vrf.unlockAt v = if r.vrf.coordinator ≠ 0 ∧ v = w then 0 else r.vrf.unlockAt v
  unlockBlock : ∀ v,
    r'.vrf.unlockBlock v = if r.vrf.coordinator ≠ 0 ∧ v = w then 0 else r.vrf.unlockBlock v

theorem setEmergencyMode_ok {g : Governance} {r r' : Release} {w : ℕ} {enabled : Bool}
    {frame : Option Frame} {logs : List Event}
    (h : setEmergencyMode env g r w enabled = .ok ((r', frame), logs)) :
    EmergencyModeSet r w enabled r' := by
  simp only [setEmergencyMode, ↓revertIf_bind] at h
  obtain ⟨_, _, _, h⟩ := h
  split at h
  · next hon =>
    simp only [VrfStore.requestUnlock, bind_ok, revertIf_ok, exists_const, pure_ok, Prod.mk.injEq] at h
    obtain ⟨vrf, ⟨_, rfl⟩, ⟨rfl, _⟩, _⟩ := h
    refine ⟨rfl, fun v => ?_, fun v => ?_⟩
    · simp only [clear_unlockAt, hon.1, true_and, ne_eq, not_false_eq_true]
    · simp only [clear_unlockBlock, hon.1, true_and, ne_eq, not_false_eq_true]
  · simp only [pure_ok, Prod.mk.injEq] at h
    obtain ⟨⟨rfl, _⟩, _⟩ := h
    by_cases hc : r.vrf.coordinator = 0
    · refine ⟨rfl, fun v => ?_, fun v => ?_⟩
      · simp only [hc, ne_eq, not_true_eq_false, if_false, false_and]
      · simp only [hc, ne_eq, not_true_eq_false, if_false, false_and]
    · refine ⟨rfl, fun v => ?_, fun v => ?_⟩
      · simp only [hc, ne_eq, not_false_eq_true, if_true, true_and, clear_unlockAt]
      · simp only [hc, ne_eq, not_false_eq_true, if_true, true_and, clear_unlockBlock]

/-! The post-death gate. A vault unlocks a period and a number of blocks after its last recorded proof
of life; the number is the period divided by a median over the recorded heartbeats, so it is as
small as the heartbeats are far apart. -/
open History

variable {L : Type} {chain : Chain} {nft : ERC721 L} {env : Env} {s s' : State L} {v : ℕ}
  {hist : List (Transition (State L) Invocation)} {t : Transition (State L) Invocation}

def MIN_POST_DEATH_BLOCK_DELTA : ℕ := 256

/-! ## Recorded proofs of life -/

/-- A vault whose proof of life is recorded, with the terms it is then under. -/
structure LifeRecord where
  vaultId : ℕ
  inactivityPeriod : ℕ
  targetBlocks : ℕ

def LifeRecord.configured (r : Release) (vaultId inactivityPeriod : ℕ) : LifeRecord :=
  ⟨vaultId, uint40 inactivityPeriod, inactivityPeriod / getMedianBlockInterval r⟩

def LifeRecord.proved (r : Release) (vaultId : ℕ) : LifeRecord :=
  ⟨vaultId, (r.vaultReleaseStates vaultId).inactivityPeriod, (r.vaultReleaseStates vaultId).targetBlocks⟩

/-- The proof of life that a transition records: a new vault, a new configuration or a heartbeat. -/
def recordedLife (t : Transition (State L) Invocation) : Option LifeRecord :=
  match t.label.2 with
  | .createVault .. => some (.configured t.pre.release t.post.governance.vaultIdCounter (days 30))
  | .release (.configureVaultRelease vaultId inactivityPeriod) =>
    some (.configured t.pre.release vaultId inactivityPeriod)
  | .release (.proveLife vaultId) | .release (.proveLifeByKeeper vaultId) =>
    some (.proved t.pre.release vaultId)
  | _ => none

def RecordsLife (v : ℕ) (t : Transition (State L) Invocation) : Prop :=
  (recordedLife t).map LifeRecord.vaultId = some v

instance (v : ℕ) : DecidablePred (RecordsLife (L := L) v) := fun _ => inferInstanceAs (Decidable (_ = _))

/-- What `_isPostDeathUnlocked` reads of a vault. -/
def lifeTerms (s : State L) (v : ℕ) : ℕ × ℕ × ℕ × ℕ :=
  let state := s.release.vaultReleaseStates v
  (state.lastProofOfLife, state.lastProofOfLifeBlock, state.inactivityPeriod, state.targetBlocks)

/-! ## What a transition records -/

inductive LifeEffect (v : ℕ) (t : Transition (State L) Invocation) : Prop
  | kept : ¬ RecordsLife v t → lifeTerms t.post v = lifeTerms t.pre v → LifeEffect v t
  | recorded (record : LifeRecord) : recordedLife t = some record → record.vaultId = v →
      lifeTerms t.post v = (uint40 t.label.1.timestamp, uint40 t.label.1.number,
        record.inactivityPeriod, record.targetBlocks) → LifeEffect v t

theorem LifeEffect.of_update (record : LifeRecord) {state : VaultReleaseState}
    (hrecord : recordedLife t = some record)
    (hstates : t.post.release.vaultReleaseStates =
      Function.update t.pre.release.vaultReleaseStates record.vaultId state)
    (hstate : (state.lastProofOfLife, state.lastProofOfLifeBlock, state.inactivityPeriod,
      state.targetBlocks) = (uint40 t.label.1.timestamp, uint40 t.label.1.number,
        record.inactivityPeriod, record.targetBlocks)) (v : ℕ) : LifeEffect v t := by
  by_cases hv : v = record.vaultId
  · refine .recorded record hrecord hv.symm ?_
    rw [lifeTerms, hstates, hv, Function.update_self]
    exact hstate
  · refine .kept ?_ ?_
    · rw [RecordsLife, hrecord]
      exact fun h => hv (Option.some.inj h).symm
    · rw [lifeTerms, lifeTerms, hstates, Function.update_of_ne hv]

theorem execRelease_life {c : ReleaseCall} {r' : Release} {logs : List Event}
    (h : execRelease chain env s c = .ok (r', logs)) (v : ℕ) :
    LifeEffect v ⟨s, (env, .release c), { s with release := r', logs }⟩ := by
  cases execRelease_effect h with
  | @configured w inactivityPeriod =>
    exact .of_update (.configured s.release w inactivityPeriod) rfl rfl rfl v
  | @proved _ w hc =>
    refine .of_update (.proved s.release w) ?_ rfl rfl v
    rcases hc with rfl | rfl <;> rfl
  | fulfilled => exact .kept (by rintro ⟨⟩) rfl
  | other hconfigure hprove _ hstates =>
    have hnone : recordedLife ⟨s, (env, .release c), { s with release := r', logs }⟩ = none := by
      cases c with
      | configureVaultRelease w inactivityPeriod => exact (hconfigure w inactivityPeriod rfl).elim
      | proveLife w => exact ((hprove w).1 rfl).elim
      | proveLifeByKeeper w => exact ((hprove w).2 rfl).elim
      | _ => rfl
    refine .kept ?_ ?_
    · rw [RecordsLife, hnone]
      rintro ⟨⟩
    · rw [lifeTerms, lifeTerms, hstates]

theorem Steps.life_effect {i : Invocation} (h : Steps chain nft s i s') (v : ℕ) :
    LifeEffect v ⟨s, i, s'⟩ := by
  cases h.effect with
  | release hcall => exact execRelease_life hcall v
  | @createVault _ _ _ _ _ governance _ =>
    exact .of_update (.configured s.release governance.vaultIdCounter (days 30)) rfl rfl rfl v
  | @emergency _ w enabled release _ _ _ hcall =>
    refine .kept (by rintro ⟨⟩) ?_
    show lifeTerms { s with release } v = _
    rw [lifeTerms, lifeTerms, (setEmergencyMode_ok hcall).states]
    by_cases hv : v = w
    · rw [hv, Function.update_self]
    · rw [Function.update_of_ne hv]
  | _ => exact .kept (by rintro ⟨⟩) rfl

/-! ## Runs -/

/-- The block is not before the last one of the history. -/
def NotBefore (hist : List (Transition (State L) Invocation)) (env : Env) : Prop :=
  ∀ t ∈ hist.head?, t.label.1.timestamp ≤ env.timestamp ∧ t.label.1.number ≤ env.number

/-- The block is the inactivity period and the minimal number of blocks after the last recorded proof
of life of the vault. -/
def OutlivedBy (env : Env) (s : State L) (v : ℕ) (hist : List (Transition (State L) Invocation)) : Prop :=
  Since (fun t => ¬ RecordsLife v t)
    (fun t => RecordsLife v t ∧
      t.label.1.timestamp + (s.release.vaultReleaseStates v).inactivityPeriod ≤ env.timestamp ∧
      t.label.1.number + MIN_POST_DEATH_BLOCK_DELTA ≤ env.number) hist

instance (hist : List (Transition (State L) Invocation)) (env : Env) : Decidable (NotBefore hist env) :=
  inferInstanceAs (Decidable (∀ t ∈ hist.head?, _))

instance (env : Env) (s : State L) (v : ℕ) : DecidablePred (OutlivedBy env s v) := fun hist =>
  inferInstanceAs (Decidable (Since _ _ hist))

/-- In every state the run went through, and in every block from then on, an unlocked vault was
outlived. -/
def FloorHolds (hist : List (Transition (State L) Invocation)) (s : State L) : Prop :=
  ∀ early s', Visits hist s early s' → ∀ env v, NotBefore early env →
    isPostDeathUnlocked env s'.release v = .ok true → OutlivedBy env s' v early

/-- A recorded proof of life that lets the vault unlock is taken under a target of at least the
minimal number of blocks, and in a block that the narrow words can tell. -/
def KeepsFloor (t : Transition (State L) Invocation) : Prop :=
  ∀ record ∈ recordedLife t, record.inactivityPeriod ≠ 0 →
    uint40 t.label.1.timestamp + record.inactivityPeriod < 2 ^ 40 →
    t.label.1.timestamp < 2 ^ 40 ∧
      t.label.1.number + MIN_POST_DEATH_BLOCK_DELTA ≤ uint40 t.label.1.number + record.targetBlocks

instance (t : Transition (State L) Invocation) : Decidable (KeepsFloor t) :=
  inferInstanceAs (Decidable (∀ record ∈ recordedLife t, _))

theorem isPostDeathUnlocked_iff (r : Release) (v : ℕ) :
    isPostDeathUnlocked env r v = .ok true ↔
      (r.vaultReleaseStates v).inactivityPeriod ≠ 0 ∧
      (r.vaultReleaseStates v).lastProofOfLife + (r.vaultReleaseStates v).inactivityPeriod < 2 ^ 40 ∧
      (r.vaultReleaseStates v).lastProofOfLife + (r.vaultReleaseStates v).inactivityPeriod ≤
        env.timestamp ∧
      (r.vaultReleaseStates v).lastProofOfLifeBlock + (r.vaultReleaseStates v).targetBlocks ≤
        env.number := by
  unfold isPostDeathUnlocked
  dsimp only
  split_ifs with hperiod
  · simp [hperiod]
  · simp [↓revertIf_bind, hperiod]

theorem VaultRun.last_record (h : VaultRun chain nft hist s)
    (hperiod : (s.release.vaultReleaseStates v).inactivityPeriod ≠ 0) :
    Since (fun t => ¬ RecordsLife v t) (fun t => RecordsLife v t ∧ ∃ record ∈ recordedLife t,
      lifeTerms s v = (uint40 t.label.1.timestamp, uint40 t.label.1.number,
        record.inactivityPeriod, record.targetBlocks)) hist := by
  have hwritten := h.since_written (fun s => lifeTerms s v) (fun terms => terms.2.2.1 ≠ 0) (RecordsLife v)
    ?_ ?_ hperiod
  · refine Since.mono hwritten (fun _ => id) ?_
    rintro t ⟨hrecords, hstep, hterms⟩
    cases Steps.life_effect hstep v with
    | kept hnot _ => exact (hnot hrecords).elim
    | recorded record hrecord _ hpost => exact ⟨hrecords, record, hrecord, hterms.symm.trans hpost⟩
  · rintro s ⟨_, rfl⟩ hset
    exact hset rfl
  · intro s i s' hstep
    cases hstep.life_effect v with
    | kept _ hkept => exact .inr hkept
    | recorded record hrecord hv _ =>
      refine .inl ?_
      rw [RecordsLife, hrecord, Option.map_some, hv]

theorem VaultRun.outlived (h : VaultRun chain nft hist s) (hfloor : ∀ t ∈ hist, KeepsFloor t)
    (hunlocked : isPostDeathUnlocked env s.release v = .ok true) : OutlivedBy env s v hist := by
  obtain ⟨hperiod, hfits, hlate, hdeep⟩ := (isPostDeathUnlocked_iff _ _).mp hunlocked
  obtain ⟨after, t, before, rfl, ⟨hrecords, record, hrecord, hterms⟩, hafter⟩ :=
    (since_iff_split _ _ _).mp (h.last_record hperiod)
  simp only [lifeTerms, Prod.mk.injEq] at hterms
  obtain ⟨hat, hblock, hspan, htarget⟩ := hterms
  rw [hat, hspan] at hfits
  obtain ⟨hnarrow, hmin⟩ := hfloor t (by simp) record hrecord (hspan ▸ hperiod) hfits
  refine (since_iff_split _ _ _).mpr ⟨after, t, before, rfl, ⟨hrecords, ?_, ?_⟩, hafter⟩
  · rw [hat, uint40, Nat.mod_eq_of_lt hnarrow] at hlate
    exact hlate
  · rw [hblock, htarget] at hdeep
    exact hmin.trans hdeep

def firstUnlock (t : Transition (State L) Invocation) (record : LifeRecord) : Env where
  sender := t.label.1.sender
  timestamp := max t.label.1.timestamp (uint40 t.label.1.timestamp + record.inactivityPeriod)
  number := max t.label.1.number (uint40 t.label.1.number + record.targetBlocks)
  sender_ne := t.label.1.sender_ne
  timestamp_pos := lt_of_lt_of_le t.label.1.timestamp_pos (le_max_left _ _)

theorem keepsFloor_of_outlived {record : LifeRecord}
    (heffect : LifeEffect record.vaultId t) (hrecord : recordedLife t = some record)
    (hperiod : record.inactivityPeriod ≠ 0)
    (hfits : uint40 t.label.1.timestamp + record.inactivityPeriod < 2 ^ 40)
    (houtlived : isPostDeathUnlocked (firstUnlock t record) t.post.release record.vaultId = .ok true →
      OutlivedBy (firstUnlock t record) t.post record.vaultId (t :: hist)) :
    t.label.1.timestamp < 2 ^ 40 ∧
      t.label.1.number + MIN_POST_DEATH_BLOCK_DELTA ≤ uint40 t.label.1.number + record.targetBlocks := by
  have hrecords : RecordsLife record.vaultId t := by rw [RecordsLife, hrecord, Option.map_some]
  cases heffect with
  | kept hnot _ => exact (hnot hrecords).elim
  | recorded record' hrecord' _ hterms =>
    cases hrecord.symm.trans hrecord'
    simp only [lifeTerms, Prod.mk.injEq] at hterms
    obtain ⟨hat, hblock, hspan, htarget⟩ := hterms
    have hunlocked : isPostDeathUnlocked (firstUnlock t record) t.post.release record.vaultId = .ok true := by
      rw [isPostDeathUnlocked_iff, hat, hblock, hspan, htarget]
      exact ⟨hperiod, hfits, le_max_right _ _, le_max_right _ _⟩
    rcases houtlived hunlocked with ⟨_, hlate, hdeep⟩ | ⟨hnot, _⟩
    · rw [hspan] at hlate
      simp only [firstUnlock, MIN_POST_DEATH_BLOCK_DELTA] at hlate hdeep ⊢
      have hnarrow : uint40 t.label.1.timestamp < 2 ^ 40 := Nat.mod_lt _ (by decide)
      omega
    · exact (hnot hrecords).elim

/-- An unlocked vault was always outlived by its inactivity period and the minimal number of blocks in
exactly the runs in which every proof of life is recorded under a target of that many blocks. -/
theorem post_death_floor_iff (h : VaultRun chain nft hist s) :
    FloorHolds hist s ↔ ∀ t ∈ hist, KeepsFloor t := by
  constructor
  · intro hholds t ht record hrecord hperiod hfits
    obtain ⟨earlier, hvisit, _, hstep⟩ := h.visits_of_mem ht
    have hlater : NotBefore (t :: earlier) (firstUnlock t record) := by
      rintro t' ⟨⟩
      exact ⟨le_max_left _ _, le_max_left _ _⟩
    have houtlived := hholds (t :: earlier) t.post hvisit (firstUnlock t record) record.vaultId hlater
    exact keepsFloor_of_outlived (hstep.life_effect _) hrecord hperiod hfits houtlived
  · intro hfloor early s' hvisit env v _ hunlocked
    exact VaultRun.outlived (hvisit.run h) (fun t ht => hfloor t (hvisit.suffix.subset ht)) hunlocked

theorem post_death_floor_fresh : ∃ hist s, VaultRun localChain ERC721.standard hist s ∧
    isPostDeathUnlocked (callBy 1 90000) s.release 1 = .ok true ∧ FloorHolds hist s := by
  obtain ⟨hist, s, hrun, hend⟩ := exists_run localChain ERC721.standard 7
    [(callBy 1 100, .createVault (ascii "vault") [] [2] 1),
      (callBy 1 101, .release (.configureVaultRelease 1 (days 1))),
      (callBy 1 102, .release (.proveLife 1))]
    (fun hist s => decide (isPostDeathUnlocked (callBy 1 90000) s.release 1 = .ok true ∧
      ∀ t ∈ hist, KeepsFloor t)) (by decide +kernel)
  obtain ⟨hunlocked, hfloor⟩ := of_decide_eq_true hend
  exact ⟨hist, s, hrun, hunlocked, (post_death_floor_iff hrun).mpr hfloor⟩

/-- Two heartbeats an hour apart make an hour the block interval: a vault configured for a day then
unlocks after 24 blocks. -/
theorem post_death_floor_short : ∃ hist s, VaultRun localChain ERC721.standard hist s ∧
    (s.release.vaultReleaseStates 1).targetBlocks = 24 ∧
    (∃ env, NotBefore hist env ∧ isPostDeathUnlocked env s.release 1 = .ok true ∧
      ¬ OutlivedBy env s 1 hist) ∧ ¬ FloorHolds hist s := by
  let env : Env := ⟨1, 91400, 2524, by decide, by decide⟩
  obtain ⟨hist, s, hrun, hend⟩ := exists_run localChain ERC721.standard 7
    [(callBy 1 100, .createVault (ascii "vault") [] [2] 1),
      (callBy 1 1000, .release (.proveLife 1)),
      (callBy 1 4600, .release (.proveLife 1)),
      (callBy 1 5000, .release (.configureVaultRelease 1 (days 1)))]
    (fun hist s => decide ((s.release.vaultReleaseStates 1).targetBlocks = 24 ∧
      NotBefore hist env ∧ isPostDeathUnlocked env s.release 1 = .ok true ∧
      ¬ OutlivedBy env s 1 hist)) (by decide +kernel)
  obtain ⟨htarget, hlater, hunlocked, hshort⟩ := of_decide_eq_true hend
  exact ⟨hist, s, hrun, htarget, ⟨env, hlater, hunlocked, hshort⟩,
    fun hholds => hshort (hholds hist s .here env 1 hlater hunlocked)⟩

end ChainGuard.Evm
