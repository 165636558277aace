import ChainGuard.Evm.PostDeath

/-! The delayed emergency unlock. A schedule is written by a fulfilment of the coordinator's request
and dropped whenever emergency mode is toggled with a coordinator set. A toggle without one leaves
it in place, so a schedule from before a switch can outlive the switch. -/
namespace ChainGuard.Evm
open Guarded History
set_option autoImplicit false

variable {L : Type} {chain : Chain} {nft : ERC721 L} {env : Env} {s s' : State L} {v : ℕ}
  {hist : List (Transition (State L) Invocation)} {t : Transition (State L) Invocation}

/-! ## Events of a vault's emergency mode -/

def emergencyToggle (t : Transition (State L) Invocation) : Option (ℕ × Bool) :=
  match t.label.2 with
  | .setEmergencyMode vaultId enabled => some (vaultId, enabled)
  | _ => none

/-- Emergency mode goes from disabled to enabled. -/
def SwitchesOn (v : ℕ) (t : Transition (State L) Invocation) : Prop :=
  emergencyToggle t = some (v, true) ∧ (t.pre.release.vaultReleaseStates v).emergencyMode = false

def Resets (v : ℕ) (t : Transition (State L) Invocation) : Prop :=
  (emergencyToggle t).map Prod.fst = some v ∧ t.pre.release.vrf.coordinator ≠ 0

/-- Emergency mode is switched on without a coordinator, with a schedule still there. -/
def SwitchesOnStale (v : ℕ) (t : Transition (State L) Invocation) : Prop :=
  SwitchesOn v t ∧ t.pre.release.vrf.coordinator = 0 ∧ t.pre.release.vrf.unlockAt v ≠ 0

instance (v : ℕ) : DecidablePred (SwitchesOn (L := L) v) := fun _ => inferInstanceAs (Decidable (_ ∧ _))

instance (v : ℕ) : DecidablePred (Resets (L := L) v) := fun _ => inferInstanceAs (Decidable (_ ∧ _))

instance (v : ℕ) : DecidablePred (SwitchesOnStale (L := L) v) := fun _ =>
  inferInstanceAs (Decidable (_ ∧ _ ∧ _))

def Fulfils (v : ℕ) (t : Transition (State L) Invocation) : Prop :=
  ∃ requestId randomWords, t.label.2 = .release (.rawFulfillRandomWords requestId randomWords) ∧
    t.pre.release.vrf.vaultIdByRequestId requestId = v

def KeepsSchedule (v : ℕ) (t : Transition (State L) Invocation) : Prop :=
  t.post.release.vrf.unlockAt v = t.pre.release.vrf.unlockAt v ∧
    t.post.release.vrf.unlockBlock v = t.pre.release.vrf.unlockBlock v

/-! ## What a transition does to a schedule -/

inductive ScheduleEffect (v : ℕ) (t : Transition (State L) Invocation) : Prop
  | kept : KeepsSchedule v t → ¬ Resets v t → ¬ Fulfils v t → ScheduleEffect v t
  | reset : Resets v t → t.post.release.vrf.unlockAt v = 0 → ScheduleEffect v t
  | fulfilled : Fulfils v t → ¬ Resets v t → ¬ SwitchesOn v t → t.pre.release.vrf.unlockAt v = 0 →
      t.label.1.timestamp + minutes 10 ≤ t.post.release.vrf.unlockAt v →
      t.label.1.number + 556 ≤ t.post.release.vrf.unlockBlock v → ScheduleEffect v t

theorem fulfill_schedule {vrf vrf' : VrfStore} {requestId : ℕ} {randomWords : List ℕ}
    {emergencyMode : Bool} {events : List Event}
    (h : vrf.fulfill env requestId randomWords emergencyMode = .ok (vrf', events)) :
    vrf.unlockAt (vrf.vaultIdByRequestId requestId) = 0 ∧
      (∃ at', env.timestamp + minutes 10 ≤ at' ∧
        vrf'.unlockAt = Function.update vrf.unlockAt (vrf.vaultIdByRequestId requestId) at') ∧
      ∃ block, env.number + 556 ≤ block ∧
        vrf'.unlockBlock = Function.update vrf.unlockBlock (vrf.vaultIdByRequestId requestId) block := by
  simp only [VrfStore.fulfill, ↓revertIf_bind, pure_ok, Prod.mk.injEq] at h
  obtain ⟨_, _, _, _, _, hunset, _, rfl, _⟩ := h
  refine ⟨not_not.mp hunset, ⟨_, ?_, rfl⟩, ⟨_, ?_, rfl⟩⟩
  · rw [EMERGENCY_UNLOCK_BASE_DELAY]
    exact Nat.le_add_right _ _
  · simp only [EMERGENCY_UNLOCK_BASE_DELAY, EMERGENCY_SECONDS_PER_BLOCK,
      MIN_EMERGENCY_UNLOCK_BLOCK_DELTA, minutes]
    omega

/-- Of the calls of the release family only a fulfilment touches a schedule, and only one that is not
there yet. -/
theorem execRelease_schedule {c : ReleaseCall} {r' : Release} {logs : List Event}
    (h : execRelease chain env s c = .ok (r', logs)) (v : ℕ) :
    ScheduleEffect v ⟨s, (env, .release c), { s with release := r', logs }⟩ := by
  have hreset : ¬ Resets v ⟨s, (env, .release c), { s with release := r', logs }⟩ := by
    rintro ⟨hcall, _⟩
    cases hcall
  have hswitch : ¬ SwitchesOn v ⟨s, (env, .release c), { s with release := r', logs }⟩ := by
    rintro ⟨hcall, _⟩
    cases hcall
  cases execRelease_effect h with
  | configured => exact .kept ⟨rfl, rfl⟩ hreset (by rintro ⟨_, _, hcall, _⟩; cases hcall)
  | proved hc =>
    refine .kept ⟨rfl, rfl⟩ hreset ?_
    rintro ⟨_, _, hcall, _⟩
    cases hcall
    simp at hc
  | other _ _ hother _ hat hblock =>
    refine .kept ⟨congrFun hat v, congrFun hblock v⟩ hreset ?_
    rintro ⟨requestId, randomWords, hcall, _⟩
    exact hother requestId randomWords (Call.release.inj hcall)
  | @fulfilled requestId randomWords _ vrf' _ hfulfill =>
    obtain ⟨hunset, ⟨_, hlate, hat⟩, _, hdeep, hblock⟩ := fulfill_schedule hfulfill
    by_cases hv : v = s.release.vrf.vaultIdByRequestId requestId
    · refine .fulfilled ⟨requestId, randomWords, rfl, hv.symm⟩ hreset hswitch ?_ ?_ ?_
      · rw [hv]
        exact hunset
      · show _ ≤ vrf'.unlockAt v
        rw [hat, hv, Function.update_self]
        exact hlate
      · show _ ≤ vrf'.unlockBlock v
        rw [hblock, hv, Function.update_self]
        exact hdeep
    · refine .kept ⟨?_, ?_⟩ hreset ?_
      · show vrf'.unlockAt v = _
        rw [hat, Function.update_of_ne hv]
      · show vrf'.unlockBlock v = _
        rw [hblock, Function.update_of_ne hv]
      · rintro ⟨_, _, hcall, hvault⟩
        cases hcall
        exact hv hvault.symm

/-- Every transition keeps a vault's schedule, drops it, or writes it where there was none. -/
theorem Steps.schedule_effect {i : Invocation} (h : Steps chain nft s i s') (v : ℕ) :
    ScheduleEffect v ⟨s, i, s'⟩ := by
  cases h.effect with
  | release hcall => exact execRelease_schedule hcall v
  | @emergency _ w enabled release _ _ _ hcall =>
    have hset := setEmergencyMode_ok hcall
    by_cases hreset : s.release.vrf.coordinator ≠ 0 ∧ v = w
    · refine .reset ⟨?_, hreset.1⟩ ?_
      · rw [hreset.2]
        rfl
      · show release.vrf.unlockAt v = 0
        rw [hset.unlockAt, if_pos hreset]
    · refine .kept ⟨?_, ?_⟩ ?_ (by rintro ⟨_, _, hcall, _⟩; cases hcall)
      · show release.vrf.unlockAt v = _
        rw [hset.unlockAt, if_neg hreset]
      · show release.vrf.unlockBlock v = _
        rw [hset.unlockBlock, if_neg hreset]
      · rintro ⟨hcall, hc⟩
        cases hcall
        exact hreset ⟨hc, rfl⟩
  | _ =>
    refine .kept ⟨rfl, rfl⟩ ?_ (by rintro ⟨_, _, hcall, _⟩; cases hcall)
    rintro ⟨hcall, _⟩
    cases hcall

/-! ## Runs -/

/-- A fulfilment writes the vault's schedule, ten minutes and 556 blocks or more before. -/
def Schedules (v timestamp number : ℕ) (t : Transition (State L) Invocation) : Prop :=
  Fulfils v t ∧ (t.pre.release.vrf.unlockAt v = 0 ∧ t.post.release.vrf.unlockAt v ≠ 0) ∧
    t.label.1.timestamp + minutes 10 ≤ timestamp ∧ t.label.1.number + 556 ≤ number

/-- The schedule in force was written after the last switch from disabled to enabled. -/
def FreshSchedule (v timestamp number : ℕ) (hist : List (Transition (State L) Invocation)) : Prop :=
  Since (fun t => ¬ SwitchesOn v t ∧ KeepsSchedule v t) (Schedules v timestamp number) hist

/-- Since emergency mode was last toggled with a coordinator set, it was switched on over an old
schedule. -/
def StaleSchedule (v : ℕ) (hist : List (Transition (State L) Invocation)) : Prop :=
  Since (fun t => ¬ Resets v t) (SwitchesOnStale v) hist

instance (v : ℕ) : DecidablePred (StaleSchedule (L := L) v) := fun hist =>
  inferInstanceAs (Decidable (Since _ _ hist))

/-- What the history says about a vault's schedule: a stale one is there, and one that is there is
fresh or stale but not both. -/
def ScheduleLaw (v : ℕ) (hist : List (Transition (State L) Invocation)) (s : State L) : Prop :=
  (StaleSchedule v hist → s.release.vrf.unlockAt v ≠ 0) ∧
    (s.release.vrf.unlockAt v ≠ 0 →
      (¬ StaleSchedule v hist →
        FreshSchedule v (s.release.vrf.unlockAt v) (s.release.vrf.unlockBlock v) hist) ∧
      ∀ timestamp number, FreshSchedule v timestamp number hist → ¬ StaleSchedule v hist)

theorem ScheduleLaw.kept (hlaw : ScheduleLaw v hist t.pre) (hkeeps : KeepsSchedule v t)
    (hreset : ¬ Resets v t) (hfulfils : ¬ Fulfils v t) : ScheduleLaw v (t :: hist) t.post := by
  obtain ⟨hthere, hfresh⟩ := hlaw
  have hstale : StaleSchedule v (t :: hist) ↔ SwitchesOnStale v t ∨ StaleSchedule v hist := by
    simp only [StaleSchedule, since_cons, hreset, not_false_eq_true, true_and]
  have hcons : ∀ timestamp number, FreshSchedule v timestamp number (t :: hist) ↔
      ¬ SwitchesOn v t ∧ FreshSchedule v timestamp number hist := by
    intro timestamp number
    simp only [FreshSchedule, since_cons, Schedules, hfulfils, hkeeps, false_and, false_or, and_true]
  refine ⟨?_, fun hset => ?_⟩
  · rw [hstale, hkeeps.1]
    rintro (h | h)
    · exact h.2.2
    · exact hthere h
  · rw [hkeeps.1] at hset
    -- a switch over a schedule that is there makes it stale
    have hswitch : SwitchesOn v t → SwitchesOnStale v t := fun hon =>
      ⟨hon, not_not.mp fun hc => hreset ⟨by rw [hon.1]; rfl, hc⟩, hset⟩
    rw [hstale, hkeeps.1, hkeeps.2]
    refine ⟨fun hnot => ?_, fun timestamp number h => ?_⟩
    · rw [hcons]
      have hoff : ¬ SwitchesOn v t := fun hon => hnot (.inl (hswitch hon))
      have hold : ¬ StaleSchedule v hist := fun h => hnot (.inr h)
      exact ⟨hoff, (hfresh hset).1 hold⟩
    · rw [hcons] at h
      rintro (hon | hold)
      · exact h.1 hon.1
      · exact (hfresh hset).2 timestamp number h.2 hold

theorem VaultRun.schedule (h : VaultRun chain nft hist s) (v : ℕ) : ScheduleLaw v hist s := by
  refine h.relates (R := ScheduleLaw v) ?_ ?_
  · rintro s ⟨_, rfl⟩
    exact ⟨fun h => h.elim, fun hset => (hset rfl).elim⟩
  · intro hist s i s' _ hlaw hstep
    cases hstep.schedule_effect v with
    | kept hkeeps hreset hfulfils => exact hlaw.kept hkeeps hreset hfulfils
    | reset hreset hunset =>
      refine ⟨?_, fun hset => (hset hunset).elim⟩
      rintro (hon | ⟨hkept, _⟩)
      · exact (hreset.2 hon.2.1).elim
      · exact (hkept hreset).elim
    | fulfilled hfulfils hreset hswitch hunset hat hblock =>
      have hfresh : ¬ StaleSchedule v (⟨s, i, s'⟩ :: hist) := by
        rintro (hon | ⟨_, hold⟩)
        · exact hswitch hon.1
        · exact hlaw.1 hold hunset
      refine ⟨fun hstale => (hfresh hstale).elim, fun hset => ⟨fun _ => ?_, fun _ _ _ => hfresh⟩⟩
      apply Or.inl
      exact ⟨hfulfils, ⟨hunset, hset⟩, hat, hblock⟩

theorem FreshSchedule.mono {timestamp timestamp' number number' : ℕ}
    (h : FreshSchedule v timestamp number hist) (ht : timestamp ≤ timestamp') (hn : number ≤ number') :
    FreshSchedule v timestamp' number' hist := by
  refine Since.mono h (fun _ => id) ?_
  rintro t ⟨hfulfils, hwritten, hlate, hdeep⟩
  exact ⟨hfulfils, hwritten, hlate.trans ht, hdeep.trans hn⟩

theorem VrfStore.isReleased_iff (vrf : VrfStore) (v : ℕ) :
    vrf.isReleased env v = true ↔ vrf.unlockAt v ≠ 0 ∧ vrf.unlockBlock v ≠ 0 ∧
      vrf.unlockAt v ≤ env.timestamp ∧ vrf.unlockBlock v ≤ env.number := by
  simp only [VrfStore.isReleased, Bool.and_eq_true, bne_iff_ne, decide_eq_true_eq, and_assoc]

/-- A released vault waited out a schedule that was fulfilled after emergency mode was last switched
on, unless it was switched on without a coordinator over an older schedule. -/
theorem emergency_unlock_fresh_iff (h : VaultRun chain nft hist s)
    (hreleased : s.release.vrf.isReleased env v = true) :
    FreshSchedule v env.timestamp env.number hist ↔ ¬ StaleSchedule v hist := by
  obtain ⟨hset, _, hat, hblock⟩ := (VrfStore.isReleased_iff _ _).mp hreleased
  obtain ⟨hfresh, honly⟩ := (VaultRun.schedule h v).2 hset
  constructor
  · intro hwaited
    exact honly _ _ hwaited
  · intro hstale
    have hscheduled := hfresh hstale
    exact hscheduled.mono hat hblock

/-- With a coordinator at 50, vault 1 is switched to emergency mode and its request fulfilled. -/
def fulfilledEmergency : List Invocation :=
  [(callBy 7 100, .release (.configureVrf 50 0 1 100000 3)),
    (callBy 1 101, .createVault (ascii "vault") [] [2] 1),
    (callBy 1 102, .setEmergencyMode 1 true),
    (callBy 1 102, .randomWordsRequested 1),
    (callBy 50 200, .release (.rawFulfillRandomWords 1 [0]))]

theorem emergency_unlock_waited : ∃ hist s, VaultRun localChain ERC721.standard hist s ∧
    s.release.vrf.isReleased (callBy 1 2000) 1 = true ∧ FreshSchedule 1 2000 1000 hist := by
  obtain ⟨hist, s, hrun, hend⟩ := exists_run localChain ERC721.standard 7 fulfilledEmergency
    (fun hist s => decide (s.release.vrf.isReleased (callBy 1 2000) 1 = true ∧ ¬ StaleSchedule 1 hist))
    (by decide +kernel)
  obtain ⟨hreleased, hstale⟩ := of_decide_eq_true hend
  exact ⟨hist, s, hrun, hreleased, (emergency_unlock_fresh_iff hrun hreleased).mpr hstale⟩

/-- Emergency mode is switched off and on while there is no coordinator: the vault is released at
once, by the schedule from before the switch. -/
theorem emergency_unlock_stale : ∃ hist s, VaultRun localChain ERC721.standard hist s ∧
    isPostDeathUnlocked (callBy 1 2002) s.release 1 = .ok false ∧
    (s.release.vaultReleaseStates 1).emergencyMode = true ∧ s.release.vrf.coordinator ≠ 0 ∧
    s.release.vrf.isReleased (callBy 1 2002) 1 = true ∧ ¬ FreshSchedule 1 2002 1001 hist := by
  obtain ⟨hist, s, hrun, hend⟩ := exists_run localChain ERC721.standard 7
    (fulfilledEmergency ++
      [(callBy 7 300, .release (.configureVrf 0 0 1 100000 3)),
        (callBy 1 301, .setEmergencyMode 1 false),
        (callBy 1 2000, .setEmergencyMode 1 true),
        (callBy 7 2001, .release (.configureVrf 50 0 1 100000 3))])
    (fun hist s => decide ((isPostDeathUnlocked (callBy 1 2002) s.release 1 = .ok false ∧
      (s.release.vaultReleaseStates 1).emergencyMode = true ∧ s.release.vrf.coordinator ≠ 0 ∧
      s.release.vrf.isReleased (callBy 1 2002) 1 = true ∧ s.release.vrf.unlockAt 1 ≠ 0) ∧
      StaleSchedule 1 hist)) (by decide +kernel)
  obtain ⟨⟨hlive, hon, hc, hreleased, hset⟩, hstale⟩ := of_decide_eq_true hend
  have hlaw := (VaultRun.schedule hrun 1).2 hset
  exact ⟨hist, s, hrun, hlive, hon, hc, hreleased, fun hfresh => hlaw.2 2002 1001 hfresh hstale⟩

end ChainGuard.Evm
