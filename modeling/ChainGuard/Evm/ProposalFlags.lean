import ChainGuard.Evm.Reconfiguration

/-! The approval flags beside the proposals. A new proposal starts with an empty list but with
the flags that earlier proposals for its target left behind: flags and list agree along a run
exactly when no proposal is made over such flags. -/
namespace ChainGuard.Evm
open Guarded History
set_option autoImplicit false

variable {L : Type} {chain : Chain} {nft : ERC721 L} {s s' : State L}
  {hist : List (Transition (State L) Invocation)} {t : Transition (State L) Invocation}

section Kind
variable {κ : Type} [Inhabited κ] [DecidableEq κ] {k : Kind κ} {v : ℕ} {target : κ}

def Kind.Clean (k : Kind κ) (t : Transition (State L) Invocation) : Prop :=
  ∀ v target, k.Names .propose v target t →
    ∀ a, (k.ballots t.pre.governance).hasApproved v target a = false

/-- For every proposal that is live at some time, the flagged are the listed approvers. -/
def Kind.FlagsMatch (k : Kind κ) (s : State L) : Prop :=
  ∀ v target now, (k.proposal v target s).Live now →
    ∀ a, (k.ballots s.governance).hasApproved v target a = true ↔
      a ∈ (k.proposal v target s).approvedBy

/-! ## Clean runs -/

theorem Kind.counts_of_clean (h : VaultRun chain nft hist s) (hclean : ∀ t ∈ hist, k.Clean t) :
    Tally.Counts ((k.ballots s.governance).hasApproved v target) (k.proposal v target s).approvedBy := by
  refine Timelock.flags_count (k.slotRun v target h) ?_
  intro b hb hproposes a
  obtain ⟨t, ht, hproject⟩ := List.mem_filterMap.mp hb
  obtain ⟨j, hj, rfl⟩ := Option.map_eq_some_iff.mp hproject
  exact hclean t ht v target (proposes_of_act hj hproposes) a

theorem Kind.flagsMatch_of_clean (h : VaultRun chain nft hist s) (hclean : ∀ t ∈ hist, k.Clean t) :
    k.FlagsMatch s :=
  fun _ _ _ _ a => ((Kind.counts_of_clean h hclean).mem_iff a).symm

/-! ## Proposing over a flag -/

theorem proposed {env : Env} {required : ℕ} {b b' : Ballots κ}
    (h : b.perform env required v target .propose = .ok b') :
    (b'.proposals v target).Live env.timestamp ∧ (b'.proposals v target).approvedBy = [] ∧
      b'.hasApproved = b.hasApproved := by
  simp only [Ballots.perform, Ballots.propose, ↓revertIf_bind, pure_ok] at h
  obtain ⟨_, rfl⟩ := h
  have hts := env.timestamp_pos
  refine ⟨?_, by rw [put_proposals], rfl⟩
  rw [put_proposals]
  exact ⟨by simp; omega, by simp [days], rfl, rfl⟩

theorem Kind.clean_of_flagsMatch {i : Invocation} (hstep : Steps chain nft s i s') (h : k.FlagsMatch s') :
    k.Clean ⟨s, i, s'⟩ := by
  intro v target hn a
  obtain ⟨hlive, hempty, hflags⟩ := proposed (hstep.names_perform hn).2
  have hmem := h v target i.1.timestamp hlive a
  change (k.ballots s'.governance).hasApproved v target a = true ↔
    a ∈ ((k.ballots s'.governance).proposals v target).approvedBy at hmem
  rw [hempty, hflags] at hmem
  simpa using hmem

/-! ## Approving a live proposal -/

theorem Steps.vault_id_kept {i : Invocation} (hI : RosterOk s.governance) (hstep : Steps chain nft s i s')
    {w : ℕ} (hid : (s.governance.vaults w).id ≠ 0) : (s'.governance.vaults w).id ≠ 0 := by
  cases hstep.roster_effect with
  | kept _ hvaults _ => rwa [hvaults]
  | created h =>
    obtain ⟨vault, hvaults, _⟩ := h.vaults
    have hold : w ≠ s.governance.vaultIdCounter + 1 := by
      rintro rfl
      exact hid (by rw [hI.uncreated _ (by omega)])
    rwa [hvaults, Function.update_of_ne hold]
  | joined u h =>
    rw [h.vaults]
    by_cases hu : w = u
    · subst hu
      rwa [Function.update_self]
    · rwa [Function.update_of_ne hu]
  | reconfigured u b n _ h =>
    obtain ⟨_, hother, _, hid', _, _, _⟩ := h.vault
    by_cases hu : w = u
    · subst hu
      rwa [hid']
    · rwa [hother w hu]

theorem Kind.proposal_vault (h : VaultRun chain nft hist s) :
    (k.proposal v target s).createdAt ≠ 0 → (s.governance.vaults v).id ≠ 0 := by
  refine h.relates
    (R := fun _ s => (k.proposal v target s).createdAt ≠ 0 → (s.governance.vaults v).id ≠ 0) ?_ ?_
  · rintro s ⟨deployer, rfl⟩ hc
    have hunused : k.proposal v target (State.deployed nft deployer) = ({} : Ballots κ).proposals v target :=
      congrArg (fun b => b.proposals v target) k.unused
    rw [hunused] at hc
    exact absurd rfl hc
  · intro hist s i s' hr ih hstep hc
    refine hstep.vault_id_kept (rosterOk hr) ?_
    cases hact : k.act v target ⟨s, i, s'⟩ with
    | none =>
      have hkept : (k.proposal v target s').createdAt = (k.proposal v target s).createdAt :=
        congrArg Timelock.Slot.createdAt (hstep.slot_kept hact)
      exact ih (hkept ▸ hc)
    | some j =>
      obtain ⟨op, hn, _⟩ := Kind.act_eq_some hact
      exact (hstep.names_perform hn).1

theorem approve_live {env : Env} {b : Ballots κ} (hlive : (b.proposals v target).Live env.timestamp)
    (hflag : b.hasApproved v target env.sender = false) :
    ∃ b', b.approve env v target = .ok b' := by
  obtain ⟨hc, hx, he, hv⟩ := hlive
  refine ⟨{ b.put v target { b.proposals v target with
      approvedBy := (b.proposals v target).approvedBy ++ [env.sender] } with
    hasApproved := Mapping.set₃ b.hasApproved v target env.sender true }, ?_⟩
  simp only [Ballots.approve, ↓revertIf_bind, pure_ok]
  exact ⟨hc, by omega, by simp [he], by simp [hv], by simp [hflag], trivial⟩

end Kind

def GuardiansCanApprove (s : State L) : Prop :=
  (∀ (env : Env) v a, s.governance.isGuardian v env.sender = true →
    (removalKind.proposal v a s).Live env.timestamp →
    env.sender ∉ (removalKind.proposal v a s).approvedBy →
    ∃ out, approveGuardianRemoval env s.governance v a = .ok out) ∧
  (∀ (env : Env) v n, s.governance.isGuardian v env.sender = true →
    (thresholdKind.proposal v n s).Live env.timestamp →
    env.sender ∉ (thresholdKind.proposal v n s).approvedBy →
    ∃ out, approveThresholdUpdate env s.governance v n = .ok out)

theorem guardiansCanApprove (h : VaultRun chain nft hist s) (hr : removalKind.FlagsMatch s)
    (ht : thresholdKind.FlagsMatch s) : GuardiansCanApprove s := by
  refine ⟨?_, ?_⟩
  · intro env v a hguardian hlive hnot
    have hid := Kind.proposal_vault h hlive.1
    have hflag : s.governance.removals.hasApproved v a env.sender = false := by
      rw [← hr v a _ hlive] at hnot
      exact Bool.eq_false_of_not_eq_true hnot
    obtain ⟨removals, happrove⟩ := approve_live hlive hflag
    refine ⟨({ s.governance with removals }, [.GuardianRemovalApproved v a env.sender]), ?_⟩
    simp only [approveGuardianRemoval, bind_ok, revertIf_ok, exists_const, pure_ok]
    exact ⟨hid, by simp [hguardian], removals, happrove, rfl⟩
  · intro env v n hguardian hlive hnot
    have hid := Kind.proposal_vault h hlive.1
    have hflag : s.governance.thresholds.hasApproved v n env.sender = false := by
      rw [← ht v n _ hlive] at hnot
      exact Bool.eq_false_of_not_eq_true hnot
    obtain ⟨thresholds, happrove⟩ := approve_live hlive hflag
    refine ⟨({ s.governance with thresholds }, [.ThresholdUpdateApproved v n env.sender]), ?_⟩
    simp only [approveThresholdUpdate, bind_ok, revertIf_ok, exists_const, pure_ok]
    exact ⟨hid, by simp [hguardian], thresholds, happrove, rfl⟩

/-- In every state of a run the flags of the live proposals are those of their listed approvers,
and the other guardians can approve, exactly when no proposal was made over a leftover flag. -/
theorem live_flags_match_iff (h : VaultRun chain nft hist s) :
    (∀ early s', Visits hist s early s' →
        removalKind.FlagsMatch s' ∧ thresholdKind.FlagsMatch s' ∧ GuardiansCanApprove s') ↔
      ∀ t ∈ hist, removalKind.Clean t ∧ thresholdKind.Clean t := by
  constructor
  · intro hmatch t ht
    obtain ⟨_, _, _, hstep⟩ := h.of_mem ht
    obtain ⟨early, hvisit⟩ := h.visits_post ht
    obtain ⟨hr, hth, _⟩ := hmatch early t.post hvisit
    exact ⟨Kind.clean_of_flagsMatch hstep hr, Kind.clean_of_flagsMatch hstep hth⟩
  · intro hclean early s' hvisit
    have hrun := hvisit.run h
    have hearly : ∀ t ∈ early, removalKind.Clean t ∧ thresholdKind.Clean t :=
      fun t ht => hclean t (hvisit.suffix.subset ht)
    have hr := Kind.flagsMatch_of_clean hrun fun t ht => (hearly t ht).1
    have hth := Kind.flagsMatch_of_clean hrun fun t ht => (hearly t ht).2
    exact ⟨hr, hth, guardiansCanApprove hrun hr hth⟩

/-- Guardian 1 proposes and approves a removal, vetoes it as the creator, and proposes it again. -/
def reproposed : List Invocation :=
  [(callBy 1 100, .createVault (ascii "vault") [] [2] 1),
    (callBy 2 101, .governance (.acceptGuardianInvite 1)),
    (callBy 1 102, .governance (.proposeGuardianRemoval 1 2)),
    (callBy 1 103, .governance (.approveGuardianRemoval 1 2)),
    (callBy 1 104, .governance (.cancelVaultReconfiguration 1 2 0)),
    (callBy 1 105, .governance (.proposeGuardianRemoval 1 2))]

theorem reproposed_over_flag : ∃ hist s, VaultRun localChain ERC721.standard hist s ∧
    ∃ t ∈ hist, ¬ (removalKind.Clean t ∧ thresholdKind.Clean t) := by
  obtain ⟨hist, s, hrun, hend⟩ := exists_run localChain ERC721.standard 7 reproposed
    (fun _ s => decide ((removalKind.proposal 1 2 s).Live 110 ∧
      (removalKind.ballots s.governance).hasApproved 1 2 1 = true ∧
      1 ∉ (removalKind.proposal 1 2 s).approvedBy)) (by decide +kernel)
  obtain ⟨hlive, hflag, hnot⟩ := of_decide_eq_true hend
  refine ⟨hist, s, hrun, ?_⟩
  by_contra hclean
  push Not at hclean
  have hmatch := (live_flags_match_iff hrun).mpr hclean hist s .here
  exact hnot ((hmatch.1 1 2 110 hlive 1).mp hflag)

/-- A flag without an approval: guardian 1 is no approver of the live proposal and cannot become one. -/
theorem guardian_shut_out : ∃ hist s, VaultRun localChain ERC721.standard hist s ∧
    (removalKind.proposal 1 2 s).Live 110 ∧ s.governance.isGuardian 1 1 = true ∧
      (removalKind.ballots s.governance).hasApproved 1 2 1 = true ∧
      1 ∉ (removalKind.proposal 1 2 s).approvedBy ∧
      ∀ out, approveGuardianRemoval (callBy 1 110) s.governance 1 2 ≠ .ok out := by
  obtain ⟨hist, s, hrun, hend⟩ := exists_run localChain ERC721.standard 7 reproposed
    (fun _ s => decide ((removalKind.proposal 1 2 s).Live 110 ∧
      s.governance.isGuardian 1 1 = true ∧ s.governance.removals.hasApproved 1 2 1 = true ∧
      1 ∉ (removalKind.proposal 1 2 s).approvedBy)) (by decide +kernel)
  obtain ⟨hlive, hguardian, hflag, hnot⟩ := of_decide_eq_true hend
  refine ⟨hist, s, hrun, hlive, hguardian, hflag, hnot, ?_⟩
  intro out h
  simp only [approveGuardianRemoval, Ballots.approve, bind_ok, revertIf_ok, exists_const] at h
  obtain ⟨_, _, _, ⟨_, _, _, _, hunflagged, _⟩, _⟩ := h
  exact hunflagged hflag

end ChainGuard.Evm
