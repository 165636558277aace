import ChainGuard.Soroban.Records

/-! The delayed emergency unlock. Enabling emergency mode opens a cycle with an unfulfilled schedule,
anybody may fulfil it once some ledgers later, and disabling drops it: a document is released by
the one fulfilment of the cycle that is open. -/
namespace ChainGuard.Soroban
open Guarded History
set_option autoImplicit false

variable {host : Host} {env : Env} {s s' : State} {v : ℕ} {hist : List (Transition State Invocation)}
  {t : Transition State Invocation}

/-! ## Events of a vault's emergency mode -/

/-- The vault and the new mode of a `set_emergency_mode`. -/
def emergencyToggle (t : Transition State Invocation) : Option (ℕ × Bool) :=
  match t.label.2 with
  | .release (.setEmergencyMode _ vaultId enabled) => some (vaultId, enabled)
  | _ => none

def Toggles (v : ℕ) (t : Transition State Invocation) : Prop :=
  (emergencyToggle t).map Prod.fst = some v

/-- The call that opens a cycle. -/
def Enables (v : ℕ) (t : Transition State Invocation) : Prop := emergencyToggle t = some (v, true)

def Fulfils (v : ℕ) (t : Transition State Invocation) : Prop :=
  t.label.2 = .release (.fulfillEmergencyUnlockDelay v)

theorem toggles_of {enabled : Bool} (h : emergencyToggle t = some (v, enabled)) : Toggles v t := by
  rw [Toggles, h, Option.map_some]

theorem Fulfils.not_toggles (h : Fulfils v t) : ¬ Toggles v t := by
  rw [Toggles, emergencyToggle, h]
  rintro ⟨⟩

/-! ## What a transition does to a schedule -/

def unlockSlot (s : State) (v : ℕ) : Option EmergencyUnlockSchedule × ℕ :=
  (s.release.emergencyUnlock v, s.release.emergencyUnlockCycle v)

inductive UnlockEffect (v : ℕ) (t : Transition State Invocation) : Prop
  | kept : ¬ Toggles v t → ¬ Fulfils v t → unlockSlot t.post v = unlockSlot t.pre v → UnlockEffect v t
  | disabled : emergencyToggle t = some (v, false) → t.post.release.emergencyUnlock v = none →
      UnlockEffect v t
  | enabled (cycle : ℕ) : Enables v t →
      unlockSlot t.post v = (some (requestedUnlock cycle t.label.1.sequence), cycle) → UnlockEffect v t
  | fulfilled (schedule : EmergencyUnlockSchedule) (window : ℕ) : Fulfils v t →
      unlockSlot t.pre v = (some schedule, schedule.cycle) → schedule.fulfilled = false →
      schedule.requestSequence + 3 ≤ t.label.1.sequence →
      unlockSlot t.post v = (some (scheduleUnlock t.label.1 schedule window), schedule.cycle) →
      UnlockEffect v t

/-- Every transition keeps, drops, opens or fulfils the schedule of a vault. -/
theorem Steps.unlock_effect {i : Invocation} (h : Steps host s i s') (v : ℕ) :
    UnlockEffect v ⟨s, i, s'⟩ := by
  cases h.effect with
  | release hexec =>
    cases (execRelease_write hexec).2 with
    | kept htoggle hfulfil hunlock hcycle =>
      refine .kept ?_ ?_ ?_
      · intro h
        obtain ⟨⟨_, enabled⟩, hcall, _⟩ := Option.map_eq_some_iff.mp h
        unfold emergencyToggle at hcall
        split at hcall
        · next owner w enabled hlabel => exact htoggle owner w enabled (Call.release.inj hlabel)
        · cases hcall
      · exact fun h => hfulfil v (Call.release.inj h)
      · simp only [unlockSlot, hunlock, hcycle]
    | @disabled _ w =>
      by_cases hv : v = w
      · subst hv
        exact .disabled rfl (Function.update_self ..)
      · refine .kept (fun h => hv (Option.some.inj h).symm) (by rintro ⟨⟩) ?_
        simp only [unlockSlot, Function.update_of_ne hv]
    | @enabled _ w cycle =>
      by_cases hv : v = w
      · subst hv
        refine .enabled cycle rfl ?_
        simp only [unlockSlot, Function.update_self]
      · refine .kept (fun h => hv (Option.some.inj h).symm) (by rintro ⟨⟩) ?_
        simp only [unlockSlot, Function.update_of_ne hv]
    | @fulfilled w schedule window hschedule hopen hcycle hconfirmed =>
      by_cases hv : v = w
      · subst hv
        refine .fulfilled schedule window rfl ?_ hopen hconfirmed ?_
        · rw [unlockSlot, hschedule, hcycle]
        · simp only [unlockSlot, Function.update_self, hcycle]
      · refine .kept (by rintro ⟨⟩) ?_ ?_
        · intro h
          cases h
          exact hv rfl
        · simp only [unlockSlot, Function.update_of_ne hv]
  | _ => exact .kept (by rintro ⟨⟩) (by rintro ⟨⟩) rfl

/-! ## Runs -/

def WritesUnlock (v : ℕ) (t : Transition State Invocation) : Prop := Toggles v t ∨ Fulfils v t

theorem StellarRun.unlock_written (h : StellarRun host hist s) {schedule : EmergencyUnlockSchedule}
    (hslot : s.release.emergencyUnlock v = some schedule) :
    Since (fun t => ¬ WritesUnlock v t)
      (fun t => WritesUnlock v t ∧ Steps host t.pre t.label t.post ∧
        unlockSlot t.post v = (some schedule, s.release.emergencyUnlockCycle v)) hist := by
  have hnow : unlockSlot s v = (some schedule, s.release.emergencyUnlockCycle v) := by
    rw [unlockSlot, hslot]
  rw [← hnow]
  refine h.since_written (fun s => unlockSlot s v) (fun slot => slot.1 ≠ none) (WritesUnlock v) ?_ ?_
    (by rw [hnow]; exact Option.some_ne_none _)
  · rintro s rfl hset
    exact hset rfl
  · intro s i s' hstep
    cases hstep.unlock_effect v with
    | kept _ _ hkept => exact .inr hkept
    | disabled htoggle _ => exact .inl (.inl (toggles_of htoggle))
    | enabled _ henable _ => exact .inl (.inl (toggles_of henable))
    | fulfilled _ _ hfulfil => exact .inl (.inr hfulfil)

theorem StellarRun.unlock_opened (h : StellarRun host hist s) {schedule : EmergencyUnlockSchedule}
    (hslot : s.release.emergencyUnlock v = some schedule) (hopen : schedule.fulfilled = false) :
    Since (fun t => ¬ WritesUnlock v t)
      (fun t => Enables v t ∧ t.label.1.sequence = schedule.requestSequence) hist := by
  refine Since.mono (h.unlock_written hslot) (fun _ => id) ?_
  rintro t ⟨hwrites, hstep, hsame⟩
  cases Steps.unlock_effect hstep v with
  | kept htoggle hfulfil _ => exact (hwrites.elim htoggle hfulfil).elim
  | disabled _ hnone =>
    rw [unlockSlot, hnone] at hsame
    cases hsame
  | enabled cycle henable hpost =>
    cases hpost.symm.trans hsame
    exact ⟨henable, rfl⟩
  | fulfilled pending window _ _ _ _ hpost =>
    obtain ⟨hschedule, _⟩ := Prod.mk.inj (hpost.symm.trans hsame)
    obtain rfl := Option.some.inj hschedule
    cases hopen

/-- The fulfilment that wrote a schedule fulfilled the cycle in force, ledgers after it was opened. -/
structure Scheduled (v : ℕ) (s : State) (schedule : EmergencyUnlockSchedule)
    (opened fulfil : Transition State Invocation) : Prop where
  enables : Enables v opened
  fulfils : Fulfils v fulfil
  current : schedule.cycle = s.release.emergencyUnlockCycle v
  confirmed : opened.label.1.sequence + MIN_EMERGENCY_UNLOCK_CONFIRMATIONS ≤ fulfil.label.1.sequence
  unlockAt : schedule.unlockAt =
    fulfil.label.1.timestamp + EMERGENCY_UNLOCK_BASE_DELAY + schedule.jitterSeconds
  unlockSequence : fulfil.label.1.sequence + 376 < 2 ^ 32 →
    fulfil.label.1.sequence + 376 ≤ schedule.unlockSequence

theorem le_scheduleUnlock_sequence (env : Env) (schedule : EmergencyUnlockSchedule) (window : ℕ)
    (h : env.sequence + 376 < 2 ^ 32) :
    env.sequence + 376 ≤ (scheduleUnlock env schedule window).unlockSequence := by
  simp only [scheduleUnlock, saturatingAdd32, EMERGENCY_UNLOCK_BASE_DELAY, EMERGENCY_SECONDS_PER_LEDGER,
    MIN_EMERGENCY_UNLOCK_SEQUENCE_DELTA, minutes]
  omega

theorem StellarRun.unlock_fulfilled (h : StellarRun host hist s) {schedule : EmergencyUnlockSchedule}
    (hslot : s.release.emergencyUnlock v = some schedule) (hful : schedule.fulfilled = true) :
    ∃ after fulfil mid opened before, hist = after ++ fulfil :: (mid ++ opened :: before) ∧
      (∀ t ∈ after ++ mid, ¬ WritesUnlock v t) ∧ Scheduled v s schedule opened fulfil := by
  obtain ⟨after, fulfil, earlier, rfl, ⟨hwrites, hstep, hsame⟩, hafter⟩ :=
    (since_iff_split _ _ _).mp (h.unlock_written hslot)
  have hearlier : StellarRun host earlier fulfil.pre := (h.suffix_step (List.suffix_append _ _)).1
  cases Steps.unlock_effect hstep v with
  | kept htoggle hfulfil _ => exact (hwrites.elim htoggle hfulfil).elim
  | disabled _ hnone =>
    rw [unlockSlot, hnone] at hsame
    cases hsame
  | enabled cycle _ hpost =>
    cases hpost.symm.trans hsame
    cases hful
  | fulfilled pending window hfulfils hpre hopen hconfirmed hpost =>
    obtain ⟨mid, opened, before, rfl, ⟨henables, hrequested⟩, hmid⟩ := (since_iff_split _ _ _).mp
      (StellarRun.unlock_opened hearlier (congrArg Prod.fst hpre) hopen)
    obtain ⟨hschedule, hcycle⟩ := Prod.mk.inj (hpost.symm.trans hsame)
    obtain rfl := Option.some.inj hschedule
    refine ⟨after, fulfil, mid, opened, before, rfl, ?_, henables, hfulfils, hcycle, ?_, rfl, ?_⟩
    · intro t ht
      exact (List.mem_append.mp ht).elim (hafter t) (hmid t)
    · rw [hrequested]
      exact hconfirmed
    · exact le_scheduleUnlock_sequence _ _ _

/-- The block has waited out the fulfilment of the cycle in force, which was opened last and fulfilled
once. -/
def Matured (env : Env) (s : State) (v : ℕ) (hist : List (Transition State Invocation)) : Prop :=
  ∃ schedule after fulfil mid opened before, s.release.emergencyUnlock v = some schedule ∧
    hist = after ++ fulfil :: (mid ++ opened :: before) ∧ (∀ t ∈ after ++ mid, ¬ WritesUnlock v t) ∧
    Scheduled v s schedule opened fulfil ∧
    fulfil.label.1.timestamp + EMERGENCY_UNLOCK_BASE_DELAY + schedule.jitterSeconds ≤ env.timestamp ∧
    (fulfil.label.1.sequence + 376 < 2 ^ 32 → fulfil.label.1.sequence + 376 ≤ env.sequence)

theorem StellarRun.matured (h : StellarRun host hist s)
    (hmature : isEmergencyUnlockMature env s.release v = true) : Matured env s v hist := by
  unfold isEmergencyUnlockMature at hmature
  split at hmature
  · cases hmature
  · next schedule hslot =>
    simp only [Bool.and_eq_true, decide_eq_true_eq] at hmature
    obtain ⟨⟨hful, hat⟩, hsequence⟩ := hmature
    obtain ⟨after, fulfil, mid, opened, before, hhist, hquiet, hscheduled⟩ := h.unlock_fulfilled hslot hful
    refine ⟨schedule, after, fulfil, mid, opened, before, hslot, hhist, hquiet, hscheduled, ?_, ?_⟩
    · rw [← hscheduled.unlockAt]
      exact hat
    · exact fun hfits => (hscheduled.unlockSequence hfits).trans hsequence

/-- A document that needs an emergency can be requested by nothing but a matured unlock or the
inactivity gate. -/
theorem requestAccess_emergency {requester : Address} {d : ℕ} {doc : Document} {record : VaultRecord}
    (hstep : Steps host s (env, .requestAccess requester d) s') (hdoc : s.documents.docs d = some doc)
    (hcond : s.documents.docReleaseCond d = some .EmergencyOnly)
    (hrecord : s.vaults.vaults doc.vaultId = some record)
    (halive : isReleaseConditionSatisfied env s.release doc.vaultId record.releaseState .PostDeathOnly = false) :
    record.releaseState.emergencyMode = true ∧
      isEmergencyUnlockMature env s.release doc.vaultId = true := by
  cases hstep.effect with
  | requestAccess hexec =>
    simp only [requestAccess, bind_ok, requireAuth_ok, assert_ok, loadDocument_ok, loadVaultRecord_ok,
      exists_const] at hexec
    obtain ⟨_, doc', hdoc', record', hrecord', _, _, hsatisfied, _⟩ := hexec
    cases hdoc.symm.trans hdoc'
    cases hrecord.symm.trans hrecord'
    rw [hcond, Option.getD_some] at hsatisfied
    simp only [isReleaseConditionSatisfied] at hsatisfied halive
    rw [halive, Bool.false_or, Bool.and_eq_true] at hsatisfied
    exact hsatisfied

/-- Emergency mode drops an earlier schedule when it is switched off, and replaces it by an
unfulfilled one when it is switched on. -/
def DiscardsUnlock (v : ℕ) (t : Transition State Invocation) : Prop :=
  (emergencyToggle t = some (v, false) → t.post.release.emergencyUnlock v = none) ∧
    (Enables v t → t.post.release.emergencyUnlock v =
      some (requestedUnlock (t.post.release.emergencyUnlockCycle v) t.label.1.sequence))

theorem UnlockEffect.discards (h : UnlockEffect v t) : DiscardsUnlock v t := by
  cases h with
  | kept htoggle _ _ =>
    refine ⟨fun hoff => ?_, fun hon => ?_⟩
    · exact (htoggle (toggles_of hoff)).elim
    · exact (htoggle (toggles_of hon)).elim
  | disabled htoggle hnone => exact ⟨fun _ => hnone, fun hon => by cases htoggle.symm.trans hon⟩
  | enabled cycle henable hpost =>
    have hschedule : t.post.release.emergencyUnlock v = _ := congrArg Prod.fst hpost
    have hcycle : t.post.release.emergencyUnlockCycle v = cycle := congrArg Prod.snd hpost
    refine ⟨fun hoff => (by cases henable.symm.trans hoff), fun _ => ?_⟩
    rw [hschedule, hcycle]
  | fulfilled _ _ hfulfil =>
    have hnot := hfulfil.not_toggles
    refine ⟨fun hoff => ?_, fun hon => ?_⟩
    · exact (hnot (toggles_of hoff)).elim
    · exact (hnot (toggles_of hon)).elim

theorem StellarRun.fulfilled_once {after mid before : List (Transition State Invocation)}
    {first second : Transition State Invocation}
    (h : StellarRun host (after ++ second :: (mid ++ first :: before)) s) (hfirst : Fulfils v first)
    (hsecond : Fulfils v second) : ∃ t ∈ mid, Enables v t := by
  obtain ⟨hrun, hstep⟩ := h.suffix_step (List.suffix_append after _)
  cases Steps.unlock_effect hstep v with
  | kept _ hnot _ => exact (hnot hsecond).elim
  | disabled htoggle _ => exact (hsecond.not_toggles (toggles_of htoggle)).elim
  | enabled _ henable _ => exact (hsecond.not_toggles (toggles_of henable)).elim
  | fulfilled pending _ _ hpre hopen _ _ =>
    have hopened := StellarRun.unlock_opened hrun (congrArg Prod.fst hpre) hopen
    obtain ⟨t, ht, henable, _⟩ := hopened.after (fun h => h (.inr hfirst))
      (fun h => hfirst.not_toggles (toggles_of h.1))
    exact ⟨t, ht, henable⟩

/-- A document that needs an emergency can be requested only in emergency mode and after the delay of
the cycle in force; a toggle discards what was scheduled, and a cycle is fulfilled at most once. -/
theorem emergency_unlock_delayed (h : StellarRun host hist s) (v : ℕ) :
    (∀ env requester d doc record s', Steps host s (env, .requestAccess requester d) s' →
        s.documents.docs d = some doc → doc.vaultId = v →
        s.documents.docReleaseCond d = some .EmergencyOnly → s.vaults.vaults v = some record →
        isReleaseConditionSatisfied env s.release v record.releaseState .PostDeathOnly = false →
        record.releaseState.emergencyMode = true ∧ Matured env s v hist) ∧
      (∀ t ∈ hist, DiscardsUnlock v t) ∧
      ∀ after second mid first before, hist = after ++ second :: (mid ++ first :: before) →
        Fulfils v first → Fulfils v second → ∃ t ∈ mid, Enables v t := by
  refine ⟨?_, ?_, ?_⟩
  · rintro env requester d doc record s' hstep hdoc rfl hcond hrecord halive
    obtain ⟨hon, hmature⟩ := requestAccess_emergency hstep hdoc hcond hrecord halive
    exact ⟨hon, StellarRun.matured h hmature⟩
  · intro t ht
    obtain ⟨_, _, _, hstep⟩ := h.of_mem ht
    exact (Steps.unlock_effect hstep v).discards
  · rintro after second mid first before rfl hfirst hsecond
    exact StellarRun.fulfilled_once h hfirst hsecond

/-- Vault 1 has a document for emergencies, and its unlock is fulfilled four ledgers after the request. -/
def fulfilledUnlock : List Invocation :=
  [(invokedBy [acct 1] 100, .vaults (.createVault (acct 1) (ascii "vault") [] [acct 2] 1)),
    (invokedBy [acct 1] 102, .addDocument (acct 1) 1 [] (ascii "Qm") .Read .EmergencyOnly [] []),
    (invokedBy [acct 1] 200, .release (.setEmergencyMode (acct 1) 1 true)),
    (invokedBy [] 220, .release (.fulfillEmergencyUnlockDelay 1))]

/-- A document requested after the delay. -/
theorem emergency_unlock_requested : ∃ hist s s', StellarRun localHost hist s ∧
    Steps localHost s (invokedBy [acct 9] 2200, .requestAccess (acct 9) 1) s' ∧
    Matured (invokedBy [acct 9] 2200) s 1 hist := by
  obtain ⟨hist, s, s', hrun, hstep, hend⟩ := exists_step localHost fulfilledUnlock
    (invokedBy [acct 9] 2200, .requestAccess (acct 9) 1)
    (fun s _ => decide ((s.documents.docs 1).map (·.vaultId) = some 1 ∧
      s.documents.docReleaseCond 1 = some .EmergencyOnly ∧
      (s.vaults.vaults 1).map (fun record => isReleaseConditionSatisfied (invokedBy [acct 9] 2200)
        s.release 1 record.releaseState .PostDeathOnly) = some false)) (by decide +kernel)
  obtain ⟨hdoc, hcond, hrecord⟩ := of_decide_eq_true hend
  obtain ⟨doc, hdoc, hvault⟩ := Option.map_eq_some_iff.mp hdoc
  obtain ⟨record, hrecord, halive⟩ := Option.map_eq_some_iff.mp hrecord
  exact ⟨hist, s, s', hrun, hstep, ((emergency_unlock_delayed hrun 1).1 _ _ _ doc record s' hstep hdoc
    hvault hcond hrecord halive).2⟩

end ChainGuard.Soroban
