import ChainGuard.Evm.Reconfiguration

/-! Guardian rotation and the vaults it leaves behind. A removal takes one guardian off a list
that need not have another: vaults stay governable exactly when every removal leaves a guardian
behind and a threshold that the remaining guardians can reach. -/
namespace ChainGuard.Evm
open Guarded History
set_option autoImplicit false

variable {L : Type} {chain : Chain} {nft : ERC721 L} {s s' : State L}
  {hist : List (Transition (State L) Invocation)} {t : Transition (State L) Invocation}

/-! ## A pending removal names a guardian -/

theorem Kind.TakesEffect.executed {κ : Type} [Inhabited κ] [DecidableEq κ] {k : Kind κ} {v : ℕ}
    {target : κ} {i : Invocation} (hstep : Steps chain nft s i s')
    (h : k.TakesEffect v target ⟨s, i, s'⟩) : (k.proposal v target s').executed = true :=
  (perform_step (hstep.names_perform h.1).2).executes h.2

theorem Steps.proposes_guardian {i : Invocation} (hstep : Steps chain nft s i s') {v : ℕ} {a : Address}
    (h : removalKind.Names .propose v a ⟨s, i, s'⟩) :
    s.governance.isGuardian v a = true ∧ s'.governance.isGuardian = s.governance.isGuardian := by
  obtain ⟨c, hc, hn⟩ := h
  cases hstep.effect with
  | @governance env c' _ _ _ hexec =>
    cases hc
    cases c with
    | proposeGuardianRemoval =>
      cases hn
      simp only [execGovernance, proposeGuardianRemoval, bind_ok, revertIf_ok, exists_const, pure_ok,
        Prod.mk.injEq, Bool.not_eq_false] at hexec
      obtain ⟨_, _, hguardian, _, _, _, rfl, _⟩ := hexec
      exact ⟨hguardian, rfl⟩
    | _ => cases hn
  | _ => cases hc

theorem pending_removal_guardian (h : VaultRun chain nft hist s) (v : ℕ) (a : Address) :
    (removalKind.proposal v a s).Pending → s.governance.isGuardian v a = true := by
  refine h.relates
    (R := fun _ s => (removalKind.proposal v a s).Pending → s.governance.isGuardian v a = true) ?_ ?_
  · rintro s ⟨deployer, rfl⟩ hpending
    exact absurd rfl hpending.1
  · intro hist s i s' hr ih hstep hpending
    by_cases hpropose : removalKind.Names .propose v a ⟨s, i, s'⟩
    · obtain ⟨hguardian, hkept⟩ := hstep.proposes_guardian hpropose
      rw [hkept]
      exact hguardian
    · have hbefore : (removalKind.proposal v a s).Pending := by
        cases hact : removalKind.act v a ⟨s, i, s'⟩ with
        | none =>
          have hkept := hstep.slot_kept hact
          exact ⟨fun hc => hpending.1 ((congrArg Timelock.Slot.createdAt hkept).trans hc),
            (congrArg Timelock.Slot.executed hkept).symm.trans hpending.2⟩
        | some j =>
          obtain ⟨op, hn, rfl⟩ := Kind.act_eq_some hact
          refine (perform_step (hstep.names_perform hn).2).pending_before ?_ hpending.1 hpending.2
          intro now heq
          cases op with
          | propose => exact hpropose hn
          | approve | queue | cancel | execute => cases heq
      by_contra hgone
      have heffect := hstep.removal_takes_effect (ih hbefore) (Bool.eq_false_of_not_eq_true hgone)
      have hexecuted := heffect.executed hstep
      rw [hpending.2] at hexecuted
      cases hexecuted

/-! ## The property and the condition -/

/-- Every created vault has a guardian, and its list is its membership map. -/
def Governable (s : State L) : Prop :=
  ∀ v, 1 ≤ v → v ≤ s.governance.vaultIdCounter →
    (s.governance.vaults v).guardians ≠ [] ∧
      Tally.Counts (s.governance.isGuardian v) (s.governance.vaults v).guardians

def reconfigures (t : Transition (State L) Invocation) : Option (ℕ × Address × ℕ) :=
  match t.label.2 with
  | .governance (.executeVaultReconfiguration v a n) => some (v, a, n)
  | _ => none

/-- A reachable threshold stays reachable. -/
def KeepsThreshold (t : Transition (State L) Invocation) : Prop :=
  ∀ r ∈ reconfigures t,
    (t.pre.governance.vaults r.1).approvalThreshold ≤ (t.pre.governance.vaults r.1).guardians.length →
    (t.post.governance.vaults r.1).approvalThreshold ≤ (t.post.governance.vaults r.1).guardians.length

/-- A removal takes place next to another guardian, and with a threshold update beside it unless
the threshold leaves room for one guardian less. -/
def SafeRemoval (t : Transition (State L) Invocation) : Prop :=
  ∀ r ∈ reconfigures t, (removalKind.proposal r.1 r.2.1 t.pre).Open t.label.1.timestamp →
    2 ≤ (t.pre.governance.vaults r.1).guardians.length ∧
      ((thresholdKind.proposal r.1 r.2.2 t.pre).Open t.label.1.timestamp ∨
        (t.pre.governance.vaults r.1).approvalThreshold ≠ (t.pre.governance.vaults r.1).guardians.length)

instance : DecidablePred (SafeRemoval (L := L)) := fun t =>
  inferInstanceAs (Decidable (∀ r ∈ reconfigures t, _ → _))

/-! ## One reconfiguration -/

theorem Steps.reconfigured {i : Invocation} (hstep : Steps chain nft s i s') {v n : ℕ} {a : Address}
    (h : reconfigures ⟨s, i, s'⟩ = some (v, a, n)) :
    i.2 = .governance (.executeVaultReconfiguration v a n) ∧
      Reconfigured i.1 s.governance v a n s'.governance := by
  unfold reconfigures at h
  split at h
  · next v' a' n' hlabel =>
    cases h
    cases hstep.effect with
    | governance _ hexec =>
      cases hlabel
      exact ⟨rfl, executeVaultReconfiguration_ok hexec⟩
    | _ => cases hlabel
  · cases h

theorem Reconfigured.size {env : Env} {g g' : Governance} {v n : ℕ} {a : Address}
    (h : Reconfigured env g v a n g') (hI : RosterOk g)
    (hpending : (g.removals.proposals v a).Pending → g.isGuardian v a = true) :
    (g'.vaults v).guardians.length + (if (g.removals.proposals v a).Open env.timestamp then 1 else 0) =
      (g.vaults v).guardians.length := by
  obtain ⟨_, _, _, _, _, hlist, _⟩ := h.vault
  rw [hlist]
  split
  · next hopen =>
    have hmem := ((hI.counts v).mem_iff a).mpr (hpending ⟨hopen.1, hopen.2.1⟩)
    exact Tally.swapRemove_length hmem
  · rfl

theorem uint96_le (n : ℕ) : uint96 n ≤ n := Nat.mod_le _ _

theorem keepsThreshold_of_safe {i : Invocation} (hr : VaultRun chain nft hist s)
    (hstep : Steps chain nft s i s') (hsafe : SafeRemoval ⟨s, i, s'⟩) : KeepsThreshold ⟨s, i, s'⟩ := by
  rintro ⟨v, a, n⟩ hrec hle
  obtain ⟨hlabel, h⟩ := hstep.reconfigured hrec
  have hsize := h.size (rosterOk hr) (pending_removal_guardian hr v a)
  have hbound := h.bounded
  have htrunc := uint96_le n
  obtain ⟨_, _, _, _, hthreshold, _, _⟩ := h.vault
  change (s'.governance.vaults v).approvalThreshold ≤ (s'.governance.vaults v).guardians.length
  change (s.governance.vaults v).approvalThreshold ≤ (s.governance.vaults v).guardians.length at hle
  rw [hthreshold]
  by_cases hremoval : (s.governance.removals.proposals v a).Open i.1.timestamp
  · obtain ⟨htwo, hroom⟩ := hsafe _ hrec hremoval
    change 2 ≤ (s.governance.vaults v).guardians.length at htwo
    rw [if_pos hremoval] at hsize hbound
    split
    · next hopen =>
      have := hbound hopen
      omega
    · next hopen =>
      have hne := hroom.resolve_left hopen
      change (s.governance.vaults v).approvalThreshold ≠ (s.governance.vaults v).guardians.length at hne
      omega
  · rw [if_neg hremoval] at hsize hbound
    split
    · next hopen =>
      have := hbound hopen
      omega
    · omega

/-! ## Runs -/

theorem governable_of_safe (h : VaultRun chain nft hist s) (hsafe : ∀ t ∈ hist, SafeRemoval t) :
    Governable s := by
  refine h.relates_of (R := fun _ s => Governable s) (C := SafeRemoval) ?_ ?_ hsafe
  · rintro s ⟨deployer, rfl⟩ v h1 h2
    change v ≤ 0 at h2
    omega
  · intro hist s i s' hr ih hC hstep v h1 h2
    refine ⟨?_, ((rosterOk hr).step hstep).counts v⟩
    cases hstep.roster_effect with
    | kept hcounter hvaults _ =>
      rw [hvaults]
      exact (ih v h1 (hcounter ▸ h2)).1
    | created h =>
      obtain ⟨vault, hvaults, hlist⟩ := h.vaults
      rw [hvaults]
      by_cases hv : v = s.governance.vaultIdCounter + 1
      · subst hv
        rw [Function.update_self, hlist]
        simp
      · rw [Function.update_of_ne hv]
        rw [h.counter] at h2
        exact (ih v h1 (by omega)).1
    | joined w h =>
      rw [h.vaults]
      by_cases hv : v = w
      · subst hv
        rw [Function.update_self]
        simp
      · rw [Function.update_of_ne hv]
        exact (ih v h1 (h.counter ▸ h2)).1
    | reconfigured w a n hlabel h =>
      obtain ⟨hcounter, hother, _, _, _, _, _⟩ := h.vault
      have hbefore := (ih v h1 (hcounter ▸ h2)).1
      by_cases hv : v = w
      · subst hv
        have hrec : (v, a, n) ∈ reconfigures ⟨s, i, s'⟩ := by
          simp [reconfigures, hlabel]
        have hsize := h.size (rosterOk hr) (pending_removal_guardian hr v a)
        have hpos := List.length_pos_iff.mpr hbefore
        rw [← List.length_pos_iff]
        split at hsize
        · next hopen =>
          have htwo := (hC _ hrec hopen).1
          change 2 ≤ (s.governance.vaults v).guardians.length at htwo
          omega
        · omega
      · rw [hother v hv]
        exact hbefore

theorem safe_of_governable {i : Invocation} (hr : VaultRun chain nft hist s)
    (hstep : Steps chain nft s i s') (hgov : Governable s') (hkeeps : KeepsThreshold ⟨s, i, s'⟩) :
    SafeRemoval ⟨s, i, s'⟩ := by
  rintro ⟨v, a, n⟩ hrec hopen
  obtain ⟨hlabel, h⟩ := hstep.reconfigured hrec
  have hsize := h.size (rosterOk hr) (pending_removal_guardian hr v a)
  change (s.governance.removals.proposals v a).Open i.1.timestamp at hopen
  rw [if_pos hopen] at hsize
  obtain ⟨hcounter, _, _, _, hthreshold, _, _⟩ := h.vault
  obtain ⟨h1, h2⟩ := (rosterOk hr).existing fun he => h.existing (by rw [he])
  have hpost := List.length_pos_iff.mpr (hgov v h1 (hcounter ▸ h2)).1
  refine ⟨by
    change 2 ≤ (s.governance.vaults v).guardians.length
    omega, ?_⟩
  by_contra hno
  simp only [not_or, not_not] at hno
  obtain ⟨hclosed, heq⟩ := hno
  change ¬ (s.governance.thresholds.proposals v n).Open i.1.timestamp at hclosed
  change (s.governance.vaults v).approvalThreshold = (s.governance.vaults v).guardians.length at heq
  have hreach := hkeeps _ hrec (le_of_eq heq)
  change (s'.governance.vaults v).approvalThreshold ≤ (s'.governance.vaults v).guardians.length at hreach
  rw [hthreshold, if_neg hclosed] at hreach
  omega

/-- Every vault keeps a guardian, and every reconfiguration a reachable threshold, in exactly the
runs all of whose removals are safe. -/
theorem rotation_governable_iff (h : VaultRun chain nft hist s) :
    ((∀ early s', Visits hist s early s' → Governable s') ∧ ∀ t ∈ hist, KeepsThreshold t) ↔
      ∀ t ∈ hist, SafeRemoval t := by
  constructor
  · rintro ⟨hgov, hkeeps⟩ t ht
    obtain ⟨_, _, hr, hstep⟩ := h.of_mem ht
    obtain ⟨early, hvisit⟩ := h.visits_post ht
    exact safe_of_governable hr hstep (hgov early t.post hvisit) (hkeeps t ht)
  · intro hsafe
    refine ⟨?_, ?_⟩
    · intro early s' hvisit
      exact governable_of_safe (hvisit.run h) fun t ht => hsafe t (hvisit.suffix.subset ht)
    · intro t ht
      obtain ⟨_, _, hr, hstep⟩ := h.of_mem ht
      exact keepsThreshold_of_safe hr hstep (hsafe t ht)

/-- The first of the two removals is safe. -/
theorem rotation_governable_first : ∃ hist s, VaultRun localChain ERC721.standard hist s ∧
    (s.governance.vaults 1).guardians = [2] ∧ Governable s := by
  obtain ⟨hist, s, hrun, hend⟩ := exists_run localChain ERC721.standard 7
    (bothRemovals ++ [firstRemoval])
    (fun hist s => decide ((s.governance.vaults 1).guardians = [2] ∧ ∀ t ∈ hist, SafeRemoval t))
    (by decide +kernel)
  obtain ⟨hlist, hsafe⟩ := of_decide_eq_true hend
  exact ⟨hist, s, hrun, hlist, ((rotation_governable_iff hrun).mpr hsafe).1 hist s .here⟩

/-- The second removal takes the last guardian, with the threshold at one. -/
theorem vault_without_guardians : ∃ hist s s',
    VaultRun localChain ERC721.standard hist s ∧ Steps localChain ERC721.standard s secondRemoval s' ∧
      (s'.governance.vaultIdCounter = 1 ∧ (s'.governance.vaults 1).guardians = []) ∧
      ¬ Governable s' ∧ ¬ KeepsThreshold ⟨s, secondRemoval, s'⟩ := by
  obtain ⟨hist, s, s', hrun, hstep, hend⟩ := exists_step localChain ERC721.standard 7
    (bothRemovals ++ [firstRemoval]) secondRemoval
    (fun s s' => decide ((s'.governance.vaultIdCounter = 1 ∧
        (s'.governance.vaults 1).guardians = []) ∧
      (s.governance.vaults 1).approvalThreshold ≤ (s.governance.vaults 1).guardians.length ∧
      ¬ (s'.governance.vaults 1).approvalThreshold ≤ (s'.governance.vaults 1).guardians.length))
    (by decide +kernel)
  obtain ⟨hempty, hreach, hlost⟩ := of_decide_eq_true hend
  refine ⟨hist, s, s', hrun, hstep, hempty, ?_, ?_⟩
  · intro hgov
    exact (hgov 1 le_rfl hempty.1.ge).1 hempty.2
  · intro hkeeps
    exact hlost (hkeeps (1, 2, 0) rfl hreach)

end ChainGuard.Evm
