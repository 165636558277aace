import ChainGuard.Evm.Proposals

/-! The guardians of the vaults: how each transition changes the list, the membership map and the
threshold, and that list and map stay one set. -/
namespace ChainGuard.Evm
open Guarded History
set_option autoImplicit false

variable {L : Type} {chain : Chain} {nft : ERC721 L} {s s' : State L}

/-! ## What a transition does to the vaults -/

/-- The vault `createVault` opens. -/
structure Created (env : Env) (g : Governance) (g' : Governance) : Prop where
  counter : g'.vaultIdCounter = g.vaultIdCounter + 1
  vaults : ∃ vault : Vault, g'.vaults = Function.update g.vaults (g.vaultIdCounter + 1) vault ∧
    vault.guardians = (g.vaults (g.vaultIdCounter + 1)).guardians ++ [env.sender]
  isGuardian : g'.isGuardian = Mapping.set₂ g.isGuardian (g.vaultIdCounter + 1) env.sender true

/-- The guardian `acceptGuardianInvite` adds. -/
structure Joined (env : Env) (g : Governance) (vaultId : ℕ) (g' : Governance) : Prop where
  active : (g.vaults vaultId).isActive = true
  new : g.isGuardian vaultId env.sender = false
  counter : g'.vaultIdCounter = g.vaultIdCounter
  vaults : g'.vaults = Function.update g.vaults vaultId
    { g.vaults vaultId with guardians := (g.vaults vaultId).guardians ++ [env.sender] }
  isGuardian : g'.isGuardian = Mapping.set₂ g.isGuardian vaultId env.sender true

inductive RosterEffect (g : Governance) (i : Invocation) (g' : Governance) : Prop
  | kept : g'.vaultIdCounter = g.vaultIdCounter → g'.vaults = g.vaults →
      g'.isGuardian = g.isGuardian → RosterEffect g i g'
  | created : Created i.1 g g' → RosterEffect g i g'
  | joined (v : ℕ) : Joined i.1 g v g' → RosterEffect g i g'
  | reconfigured (v : ℕ) (a : Address) (n : ℕ) : i.2 = .governance (.executeVaultReconfiguration v a n) →
      Reconfigured i.1 g v a n g' → RosterEffect g i g'

theorem acceptGuardianInvite_ok {env : Env} {g g' : Governance} {vaultId : ℕ} {logs : List Event}
    (h : acceptGuardianInvite env g vaultId = .ok (g', logs)) : Joined env g vaultId g' := by
  simp only [acceptGuardianInvite, ↓revertIf_bind, pure_ok, Prod.mk.injEq, bind_ok, revertIf_ok,
    exists_const, Bool.not_eq_true, Bool.not_eq_false] at h
  obtain ⟨hactive, hnew, _, _, _, rfl, _⟩ := h
  exact ⟨hactive, hnew, rfl, rfl, rfl⟩

theorem execGovernance_roster {env : Env} {g g' : Governance} {c : GovernanceCall} {logs : List Event}
    (h : execGovernance env g c = .ok (g', logs)) :
    RosterEffect g (env, .governance c) g' ∧ g'.vaultIdCounter = g.vaultIdCounter := by
  cases c with
  | acceptGuardianInvite v =>
    have hjoined := acceptGuardianInvite_ok h
    exact ⟨.joined v hjoined, hjoined.counter⟩
  | proposeGuardianRemoval =>
    simp only [execGovernance, proposeGuardianRemoval, bind_ok, revertIf_ok, exists_const, pure_ok,
      Prod.mk.injEq] at h
    obtain ⟨_, _, _, _, _, _, rfl, _⟩ := h
    exact ⟨.kept rfl rfl rfl, rfl⟩
  | approveGuardianRemoval =>
    simp only [execGovernance, approveGuardianRemoval, bind_ok, revertIf_ok, exists_const, pure_ok,
      Prod.mk.injEq] at h
    obtain ⟨_, _, _, _, rfl, _⟩ := h
    exact ⟨.kept rfl rfl rfl, rfl⟩
  | proposeThresholdUpdate =>
    simp only [execGovernance, proposeThresholdUpdate, bind_ok, revertIf_ok, exists_const, pure_ok,
      Prod.mk.injEq] at h
    obtain ⟨_, _, _, _, _, rfl, _⟩ := h
    exact ⟨.kept rfl rfl rfl, rfl⟩
  | approveThresholdUpdate =>
    simp only [execGovernance, approveThresholdUpdate, bind_ok, revertIf_ok, exists_const, pure_ok,
      Prod.mk.injEq] at h
    obtain ⟨_, _, _, _, rfl, _⟩ := h
    exact ⟨.kept rfl rfl rfl, rfl⟩
  | queueVaultReconfiguration =>
    simp only [execGovernance, queueVaultReconfiguration, bind_ok, revertIf_ok, exists_const, pure_ok,
      Prod.mk.injEq] at h
    obtain ⟨_, _, _, _, _, _, _, rfl, _⟩ := h
    exact ⟨.kept rfl rfl rfl, rfl⟩
  | cancelVaultReconfiguration =>
    simp only [execGovernance, cancelVaultReconfiguration, bind_ok, revertIf_ok, exists_const, pure_ok,
      Prod.mk.injEq] at h
    obtain ⟨_, _, _, rfl, _⟩ := h
    exact ⟨.kept rfl rfl rfl, rfl⟩
  | executeVaultReconfiguration v a n =>
    have hdone := executeVaultReconfiguration_ok h
    obtain ⟨vault, hresult, _⟩ := hdone.result
    exact ⟨.reconfigured v a n rfl hdone, by rw [hresult]⟩

theorem Steps.roster_effect {i : Invocation} (hstep : Steps chain nft s i s') :
    RosterEffect s.governance i s'.governance := by
  cases hstep.effect with
  | createVault _ hcreate =>
    obtain ⟨_, _, rfl⟩ := createVault_ok hcreate
    exact .created ⟨rfl, ⟨_, rfl, rfl⟩, rfl⟩
  | governance _ hexec => exact (execGovernance_roster hexec).1
  | _ => exact .kept rfl rfl rfl

/-! ## List and map -/

/-- The guardian lists and maps in every state the contract reaches. -/
structure RosterOk (g : Governance) : Prop where
  uncreated : ∀ v, v = 0 ∨ g.vaultIdCounter < v → g.vaults v = {}
  counts : ∀ v, Tally.Counts (g.isGuardian v) (g.vaults v).guardians

theorem RosterOk.existing {g : Governance} (h : RosterOk g) {v : ℕ} (hv : g.vaults v ≠ {}) :
    1 ≤ v ∧ v ≤ g.vaultIdCounter := by
  by_contra hno
  exact hv (h.uncreated v (by omega))

theorem RosterOk.guardian_existing {g : Governance} (h : RosterOk g) {v : ℕ} {a : Address}
    (hv : g.isGuardian v a = true) : 1 ≤ v ∧ v ≤ g.vaultIdCounter := by
  refine h.existing fun hempty => ?_
  rw [← (h.counts v).mem_iff, hempty] at hv
  exact List.not_mem_nil hv

theorem RosterOk.unlisted {g : Governance} (h : RosterOk g) {v : ℕ} (hv : g.vaultIdCounter < v)
    (a : Address) : g.isGuardian v a = false := by
  have hnot : a ∉ (g.vaults v).guardians := by
    rw [h.uncreated v (Or.inr hv)]
    exact List.not_mem_nil
  rw [(h.counts v).mem_iff] at hnot
  simpa using hnot

theorem RosterOk.created {env : Env} {g g' : Governance} (hI : RosterOk g) (h : Created env g g') :
    RosterOk g' := by
  obtain ⟨vault, hvaults, hlist⟩ := h.vaults
  refine ⟨?_, ?_⟩
  · intro v hv
    rw [h.counter] at hv
    rw [hvaults, Function.update_of_ne (by omega)]
    exact hI.uncreated v (by omega)
  · intro v
    rw [hvaults, h.isGuardian]
    by_cases he : v = g.vaultIdCounter + 1
    · subst he
      rw [Function.update_self, Mapping.set₂_row, hlist]
      exact (hI.counts _).push (hI.unlisted (by omega) env.sender)
    · rw [Function.update_of_ne he, Mapping.set₂_other _ _ _ _ _ he]
      exact hI.counts v

theorem RosterOk.joined {env : Env} {g g' : Governance} {vaultId : ℕ} (hI : RosterOk g)
    (h : Joined env g vaultId g') : RosterOk g' := by
  have hcreated := hI.existing fun he => by
    have hactive := h.active
    rw [he] at hactive
    cases hactive
  refine ⟨?_, ?_⟩
  · intro v hv
    rw [h.counter] at hv
    rw [h.vaults, Function.update_of_ne (by omega)]
    exact hI.uncreated v (by omega)
  · intro v
    rw [h.vaults, h.isGuardian]
    by_cases he : v = vaultId
    · subst he
      rw [Function.update_self, Mapping.set₂_row]
      exact (hI.counts v).push h.new
    · rw [Function.update_of_ne he, Mapping.set₂_other _ _ _ _ _ he]
      exact hI.counts v

theorem Reconfigured.vault {env : Env} {g g' : Governance} {v n : ℕ} {a : Address}
    (h : Reconfigured env g v a n g') :
    g'.vaultIdCounter = g.vaultIdCounter ∧ (∀ w, w ≠ v → g'.vaults w = g.vaults w) ∧
      (∀ w, w ≠ v → g'.isGuardian w = g.isGuardian w) ∧
      (g'.vaults v).id = (g.vaults v).id ∧
      (g'.vaults v).approvalThreshold =
        (if (g.thresholds.proposals v n).Open env.timestamp then uint96 n
          else (g.vaults v).approvalThreshold) ∧
      (g'.vaults v).guardians =
        (if (g.removals.proposals v a).Open env.timestamp then
          Tally.swapRemove (g.vaults v).guardians a else (g.vaults v).guardians) ∧
      g'.isGuardian v =
        (if (g.removals.proposals v a).Open env.timestamp then
          Function.update (g.isGuardian v) a false else g.isGuardian v) := by
  obtain ⟨vault, hg, hvault⟩ := h.result
  have hvaults : g'.vaults = Function.update g.vaults v vault := by rw [hg]
  have hmap : g'.isGuardian = if (g.removals.proposals v a).Open env.timestamp then
      Mapping.set₂ g.isGuardian v a false else g.isGuardian := by rw [hg]
  have hcounter : g'.vaultIdCounter = g.vaultIdCounter := by rw [hg]
  have hv : g'.vaults v = vault := by rw [hvaults, Function.update_self]
  refine ⟨hcounter, ?_, ?_, ?_, ?_, ?_, ?_⟩
  · intro w hw
    rw [hvaults, Function.update_of_ne hw]
  · intro w hw
    rw [hmap]
    split
    · exact Mapping.set₂_other _ _ _ _ _ hw
    · rfl
  · rw [hv, hvault]
  · rw [hv, hvault]
  · rw [hv, hvault]
  · rw [hmap]
    split
    · exact Mapping.set₂_row _ _ _ _
    · rfl

theorem RosterOk.reconfigured {env : Env} {g g' : Governance} {v n : ℕ} {a : Address} (hI : RosterOk g)
    (h : Reconfigured env g v a n g') : RosterOk g' := by
  obtain ⟨hcounter, hother, hmother, _, _, hlist, hmap⟩ := h.vault
  have hcreated := hI.existing fun he => h.existing (by rw [he])
  refine ⟨?_, ?_⟩
  · intro w hw
    rw [hcounter] at hw
    rw [hother w (by omega)]
    exact hI.uncreated w (by omega)
  · intro w
    by_cases he : w = v
    · subst he
      rw [hlist, hmap]
      split
      · exact (hI.counts w).remove a
      · exact hI.counts w
    · rw [hother w he, hmother w he]
      exact hI.counts w

theorem RosterOk.step {i : Invocation} (hI : RosterOk s.governance) (hstep : Steps chain nft s i s') :
    RosterOk s'.governance := by
  cases hstep.roster_effect with
  | kept hcounter hvaults hmap =>
    refine ⟨?_, ?_⟩
    · rw [hcounter, hvaults]
      exact hI.uncreated
    · rw [hvaults, hmap]
      exact hI.counts
  | created h => exact hI.created h
  | joined v h => exact hI.joined h
  | reconfigured v a n _ h => exact hI.reconfigured h

theorem rosterOk {hist : List (Transition (State L) Invocation)} (h : VaultRun chain nft hist s) :
    RosterOk s.governance := by
  refine h.invariant (I := fun s => RosterOk s.governance) ?_ ?_
  · rintro s ⟨deployer, rfl⟩
    exact ⟨fun _ _ => rfl, fun _ => Tally.Counts.empty fun _ => rfl⟩
  · intro s i s' hI hstep
    exact hI.step hstep

end ChainGuard.Evm
