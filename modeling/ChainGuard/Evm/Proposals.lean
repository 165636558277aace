import ChainGuard.Library.Timelock
import ChainGuard.Evm.Contract

/-! The proposals of the governance as timelocked slots. Removal and threshold proposals are two
kinds of the same thing: each kind reads its ballots out of the governance and says which
calls name which proposal. A run of the contract projects to a run of every slot. -/
namespace ChainGuard.Evm
open Guarded History
set_option autoImplicit false

section Ballots
variable {κ : Type} [Inhabited κ] [DecidableEq κ]

/-! ## One slot -/

def Ballots.slot (b : Ballots κ) (vaultId : ℕ) (target : κ) : Timelock.Slot Address :=
  let p := b.proposals vaultId target
  { approvedBy := p.approvedBy, approved := b.hasApproved vaultId target, executed := p.executed,
    vetoed := p.vetoed, createdAt := p.createdAt, expiresAt := p.expiresAt, queuedAt := p.queuedAt }

inductive BallotOp
  | propose
  | approve
  | queue
  | cancel
  | execute
  deriving DecidableEq

/-- The operation on a slot that a call stands for, given the approvals it requires. -/
def BallotOp.act (env : Env) (required : ℕ) : BallotOp → Timelock.Act Address
  | .propose => .propose env.timestamp
  | .approve => .approve env.timestamp env.sender
  | .queue => .queue env.timestamp required
  | .cancel => .veto
  | .execute => .execute env.timestamp required

def Ballots.perform (env : Env) (required : ℕ) (b : Ballots κ) (vaultId : ℕ) (target : κ) :
    BallotOp → Result (Ballots κ)
  | .propose => b.propose env vaultId target
  | .approve => b.approve env vaultId target
  | .queue => b.queue env vaultId target required
  | .cancel => .ok (b.cancel vaultId target)
  | .execute => b.execute env vaultId target required

variable {env : Env} {required vaultId : ℕ} {target : κ} {b b' : Ballots κ}

@[simp] theorem put_proposals (p : Proposal κ) : (b.put vaultId target p).proposals vaultId target = p := by
  simp [Ballots.put]

theorem put_other {v : ℕ} {x : κ} (p : Proposal κ) (h : ¬ (v = vaultId ∧ x = target)) :
    (b.put vaultId target p).proposals v x = b.proposals v x := by
  simp [Ballots.put, Mapping.set₂_apply, h]

theorem propose_step (h : b.propose env vaultId target = .ok b') :
    Timelock.Step (days 7) TIMELOCK_DELAY (b.slot vaultId target) (.propose env.timestamp)
      (b'.slot vaultId target) := by
  simp only [Ballots.propose, ↓revertIf_bind, pure_ok] at h
  obtain ⟨hlive, rfl⟩ := h
  have hno : ¬ (b.slot vaultId target).Live env.timestamp := by
    rintro ⟨⟨hc, he, hx⟩, hv⟩
    exact hlive ⟨hc, hx, he, hv⟩
  have hstep : Timelock.Step (days 7) TIMELOCK_DELAY (b.slot vaultId target) (.propose env.timestamp) _ :=
    .propose _ _ hno
  simpa [Ballots.slot, Ballots.put] using hstep

theorem approve_step (h : b.approve env vaultId target = .ok b') :
    Timelock.Step (days 7) TIMELOCK_DELAY (b.slot vaultId target) (.approve env.timestamp env.sender)
      (b'.slot vaultId target) := by
  simp only [Ballots.approve, ↓revertIf_bind, pure_ok, not_le, Bool.not_eq_true] at h
  obtain ⟨hc, hx, he, hv, ha, rfl⟩ := h
  have hlive : (b.slot vaultId target).Live env.timestamp := ⟨⟨hc, he, hx⟩, hv⟩
  have hstep : Timelock.Step (days 7) TIMELOCK_DELAY (b.slot vaultId target)
      (.approve env.timestamp env.sender) _ := .approve _ _ _ hlive ha
  simpa [Ballots.slot, Ballots.put, Mapping.set₃_row] using hstep

theorem queue_step (h : b.queue env vaultId target required = .ok b') :
    Timelock.Step (days 7) TIMELOCK_DELAY (b.slot vaultId target) (.queue env.timestamp required)
      (b'.slot vaultId target) := by
  simp only [Ballots.queue] at h
  split at h
  · next hopen =>
    simp only [↓revertIf_bind, pure_ok, ne_eq, not_not, not_lt, Bool.not_eq_true] at h
    obtain ⟨hv, hq, hlen, rfl⟩ := h
    have hstep : Timelock.Step (days 7) TIMELOCK_DELAY (b.slot vaultId target)
        (.queue env.timestamp required) _ := .queue _ _ _ hopen hv hq hlen
    simpa [Ballots.slot, Ballots.put] using hstep
  · next hopen =>
    rw [pure_ok] at h
    rw [← h]
    exact .queuePassed _ _ _ hopen

theorem cancel_step (b : Ballots κ) (vaultId : ℕ) (target : κ) :
    Timelock.Step (days 7) TIMELOCK_DELAY (b.slot vaultId target) .veto
      ((b.cancel vaultId target).slot vaultId target) := by
  simp only [Ballots.cancel]
  split
  · next hpending =>
    have hstep : Timelock.Step (days 7) TIMELOCK_DELAY (b.slot vaultId target) .veto _ :=
      .veto _ hpending.1 hpending.2
    simpa [Ballots.slot, Ballots.put] using hstep
  · next hpending => exact .vetoPassed _ hpending

theorem execute_step (h : b.execute env vaultId target required = .ok b') :
    Timelock.Step (days 7) TIMELOCK_DELAY (b.slot vaultId target) (.execute env.timestamp required)
      (b'.slot vaultId target) := by
  simp only [Ballots.execute] at h
  split at h
  · next hopen =>
    simp only [↓revertIf_bind, pure_ok, not_lt, Bool.not_eq_true] at h
    obtain ⟨hv, hq, ht, hlen, rfl⟩ := h
    have hstep : Timelock.Step (days 7) TIMELOCK_DELAY (b.slot vaultId target)
        (.execute env.timestamp required) _ := .execute _ _ _ hopen ⟨hv, hq, ht, hlen⟩
    simpa [Ballots.slot, Ballots.put] using hstep
  · next hopen =>
    rw [pure_ok] at h
    rw [← h]
    exact .executePassed _ _ _ hopen

theorem perform_step {op : BallotOp} (h : b.perform env required vaultId target op = .ok b') :
    Timelock.Step (days 7) TIMELOCK_DELAY (b.slot vaultId target) (op.act env required)
      (b'.slot vaultId target) := by
  cases op with
  | propose => exact propose_step h
  | approve => exact approve_step h
  | queue => exact queue_step h
  | cancel =>
    cases h
    exact cancel_step b vaultId target
  | execute => exact execute_step h

theorem perform_other {op : BallotOp} (h : b.perform env required vaultId target op = .ok b')
    {v : ℕ} {x : κ} (hne : ¬ (v = vaultId ∧ x = target)) :
    b'.proposals v x = b.proposals v x ∧ b'.hasApproved v x = b.hasApproved v x := by
  cases op with
  | propose =>
    simp only [Ballots.perform, Ballots.propose, ↓revertIf_bind, pure_ok] at h
    obtain ⟨_, rfl⟩ := h
    exact ⟨put_other _ hne, rfl⟩
  | approve =>
    simp only [Ballots.perform, Ballots.approve, ↓revertIf_bind, pure_ok] at h
    obtain ⟨_, _, _, _, _, rfl⟩ := h
    exact ⟨put_other _ hne, Mapping.set₃_other _ _ _ _ _ _ _ hne⟩
  | queue =>
    simp only [Ballots.perform, Ballots.queue] at h
    split at h
    · simp only [↓revertIf_bind, pure_ok] at h
      obtain ⟨_, _, _, rfl⟩ := h
      exact ⟨put_other _ hne, rfl⟩
    · rw [pure_ok] at h
      rw [← h]
      exact ⟨rfl, rfl⟩
  | cancel =>
    cases h
    simp only [Ballots.cancel]
    split
    · exact ⟨put_other _ hne, rfl⟩
    · exact ⟨rfl, rfl⟩
  | execute =>
    simp only [Ballots.perform, Ballots.execute] at h
    split at h
    · simp only [↓revertIf_bind, pure_ok] at h
      obtain ⟨_, _, _, _, rfl⟩ := h
      exact ⟨put_other _ hne, rfl⟩
    · rw [pure_ok] at h
      rw [← h]
      exact ⟨rfl, rfl⟩

theorem slot_other {op : BallotOp} (h : b.perform env required vaultId target op = .ok b')
    {v : ℕ} {x : κ} (hne : ¬ (v = vaultId ∧ x = target)) : b'.slot v x = b.slot v x := by
  obtain ⟨hp, ha⟩ := perform_other h hne
  simp [Ballots.slot, hp, ha]

end Ballots

/-! ## Kinds of proposals -/

def requiredApprovals (g : Governance) (vaultId : ℕ) : ℕ :=
  requiredQuorumApprovals (g.vaults vaultId).guardians.length

/-- A kind of proposal: where its ballots are and which calls name which proposal; no other call
touches its ballots. -/
structure Kind (κ : Type) [Inhabited κ] [DecidableEq κ] where
  ballots : Governance → Ballots κ
  named : GovernanceCall → Option (ℕ × κ × BallotOp)
  unused : ballots {} = {}
  created : ∀ {env : Env} {g g' : Governance} {name description : Bytes} {guardians : List Address}
    {approvalThreshold : ℕ} {logs : List Event},
    createVault env g name description guardians approvalThreshold = .ok (g', logs) →
    ballots g' = ballots g
  performed : ∀ {env : Env} {g g' : Governance} {c : GovernanceCall} {logs : List Event},
    execGovernance env g c = .ok (g', logs) → ∀ {v : ℕ} {target : κ} {op : BallotOp},
    named c = some (v, target, op) → (g.vaults v).id ≠ 0 ∧
    (ballots g).perform env (requiredApprovals g v) v target op = .ok (ballots g')
  untouched : ∀ {env : Env} {g g' : Governance} {c : GovernanceCall} {logs : List Event},
    execGovernance env g c = .ok (g', logs) → named c = none → ballots g' = ballots g

theorem foldl_inviteGuardian (env : Env) (vaultId : ℕ) (guardians : List Address) (g : Governance) :
    ∃ userInviteVaultIds guardianInvites, guardians.foldl (inviteGuardian env vaultId) g =
      { g with userInviteVaultIds, guardianInvites } := by
  induction guardians generalizing g with
  | nil => exact ⟨g.userInviteVaultIds, g.guardianInvites, rfl⟩
  | cons guardian rest ih =>
    obtain ⟨ids, invites, heq⟩ := ih (inviteGuardian env vaultId g guardian)
    refine ⟨ids, invites, ?_⟩
    rw [List.foldl_cons, heq, inviteGuardian]
    split
    · rfl
    · rfl

theorem createVault_ok {env : Env} {g g' : Governance} {name description : Bytes}
    {guardians : List Address} {approvalThreshold : ℕ} {logs : List Event}
    (h : createVault env g name description guardians approvalThreshold = .ok (g', logs)) :
    ∃ userInviteVaultIds guardianInvites, g' =
      { g with
        vaultIdCounter := g.vaultIdCounter + 1
        vaults := Function.update g.vaults (g.vaultIdCounter + 1)
          { g.vaults (g.vaultIdCounter + 1) with
            id := uint64 (g.vaultIdCounter + 1), creator := env.sender, name, description,
            approvalThreshold := uint96 approvalThreshold, isActive := true,
            createdAt := uint40 env.timestamp,
            guardians := (g.vaults (g.vaultIdCounter + 1)).guardians ++ [env.sender] }
        isGuardian := Mapping.set₂ g.isGuardian (g.vaultIdCounter + 1) env.sender true
        userInviteVaultIds, guardianInvites } := by
  simp only [createVault, bind_ok, revertIf_ok, exists_const, pure_ok, Prod.mk.injEq] at h
  obtain ⟨_, _, _, _, rfl, _⟩ := h
  exact foldl_inviteGuardian env (g.vaultIdCounter + 1) guardians _

/-- What an executed reconfiguration checked and left behind. -/
structure Reconfigured (env : Env) (g : Governance) (vaultId : ℕ) (guardianToRemove : Address)
    (newThreshold : ℕ) (g' : Governance) : Prop where
  existing : (g.vaults vaultId).id ≠ 0
  some_open : (g.removals.proposals vaultId guardianToRemove).Open env.timestamp ∨
    (g.thresholds.proposals vaultId newThreshold).Open env.timestamp
  removals : g.removals.execute env vaultId guardianToRemove (requiredApprovals g vaultId) = .ok g'.removals
  thresholds : g.thresholds.execute env vaultId newThreshold (requiredApprovals g vaultId) =
    .ok g'.thresholds
  bounded : (g.thresholds.proposals vaultId newThreshold).Open env.timestamp →
    newThreshold ≤ if (g.removals.proposals vaultId guardianToRemove).Open env.timestamp then
      (g.vaults vaultId).guardians.length - 1 else (g.vaults vaultId).guardians.length
  result : ∃ vault, g' =
      { g with
        removals := g'.removals, thresholds := g'.thresholds
        vaults := Function.update g.vaults vaultId vault
        isGuardian := if (g.removals.proposals vaultId guardianToRemove).Open env.timestamp then
          Mapping.set₂ g.isGuardian vaultId guardianToRemove false else g.isGuardian } ∧
    vault = { g.vaults vaultId with
      guardians := if (g.removals.proposals vaultId guardianToRemove).Open env.timestamp then
        Tally.swapRemove (g.vaults vaultId).guardians guardianToRemove else (g.vaults vaultId).guardians
      approvalThreshold := if (g.thresholds.proposals vaultId newThreshold).Open env.timestamp then
        uint96 newThreshold else (g.vaults vaultId).approvalThreshold }

theorem executeVaultReconfiguration_ok {env : Env} {g g' : Governance} {vaultId : ℕ}
    {guardianToRemove : Address} {newThreshold : ℕ} {logs : List Event}
    (h : executeVaultReconfiguration env g vaultId guardianToRemove newThreshold = .ok (g', logs)) :
    Reconfigured env g vaultId guardianToRemove newThreshold g' := by
  simp only [executeVaultReconfiguration, bind_ok, revertIf_ok, exists_const, pure_ok, Prod.mk.injEq] at h
  obtain ⟨hid, hsome, removals, hremovals, _, thresholds, hthresholds, hbound, hg, _⟩ := h
  have hr : g'.removals = removals := by rw [← hg]
  have ht : g'.thresholds = thresholds := by rw [← hg]
  refine ⟨hid, by tauto, by rw [hr]; exact hremovals, by rw [ht]; exact hthresholds, ?_, ?_⟩
  · intro hopen
    by_contra hlt
    exact hbound ⟨hopen, not_le.mp hlt⟩
  · refine ⟨_, ?_, rfl⟩
    rw [hr, ht, ← hg]
    by_cases hopen : (g.removals.proposals vaultId guardianToRemove).Open env.timestamp <;>
      by_cases hopen' : (g.thresholds.proposals vaultId newThreshold).Open env.timestamp <;>
      simp [hopen, hopen', removeGuardian, setApprovalThreshold]

def removalKind : Kind Address where
  ballots := Governance.removals
  named
    | .proposeGuardianRemoval v a => some (v, a, .propose)
    | .approveGuardianRemoval v a => some (v, a, .approve)
    | .queueVaultReconfiguration v a _ => some (v, a, .queue)
    | .cancelVaultReconfiguration v a _ => some (v, a, .cancel)
    | .executeVaultReconfiguration v a _ => some (v, a, .execute)
    | _ => none
  unused := rfl
  created := by
    intro env g g' name description guardians approvalThreshold logs h
    obtain ⟨_, _, rfl⟩ := createVault_ok h
    rfl
  performed := by
    intro env g g' c logs h v target op hnamed
    cases c with
    | acceptGuardianInvite | proposeThresholdUpdate | approveThresholdUpdate => cases hnamed
    | proposeGuardianRemoval =>
      cases hnamed
      simp only [execGovernance, proposeGuardianRemoval, bind_ok, revertIf_ok, exists_const, pure_ok,
        Prod.mk.injEq] at h
      obtain ⟨hid, _, _, _, removals, hp, rfl, _⟩ := h
      exact ⟨hid, hp⟩
    | approveGuardianRemoval =>
      cases hnamed
      simp only [execGovernance, approveGuardianRemoval, bind_ok, revertIf_ok, exists_const, pure_ok,
        Prod.mk.injEq] at h
      obtain ⟨hid, _, removals, hp, rfl, _⟩ := h
      exact ⟨hid, hp⟩
    | queueVaultReconfiguration =>
      cases hnamed
      simp only [execGovernance, queueVaultReconfiguration, bind_ok, revertIf_ok, exists_const, pure_ok,
        Prod.mk.injEq] at h
      obtain ⟨hid, _, _, removals, hp, _, _, rfl, _⟩ := h
      exact ⟨hid, hp⟩
    | cancelVaultReconfiguration =>
      cases hnamed
      simp only [execGovernance, cancelVaultReconfiguration, bind_ok, revertIf_ok, exists_const, pure_ok,
        Prod.mk.injEq] at h
      obtain ⟨hid, _, _, rfl, _⟩ := h
      exact ⟨hid, rfl⟩
    | executeVaultReconfiguration =>
      cases hnamed
      exact ⟨(executeVaultReconfiguration_ok h).existing, (executeVaultReconfiguration_ok h).removals⟩
  untouched := by
    intro env g g' c logs h hnamed
    cases c with
    | proposeGuardianRemoval | approveGuardianRemoval | queueVaultReconfiguration
    | cancelVaultReconfiguration | executeVaultReconfiguration => cases hnamed
    | acceptGuardianInvite =>
      simp only [execGovernance, acceptGuardianInvite, bind_ok, revertIf_ok, exists_const, pure_ok,
        Prod.mk.injEq] at h
      obtain ⟨_, _, _, _, _, rfl, _⟩ := h
      rfl
    | proposeThresholdUpdate =>
      simp only [execGovernance, proposeThresholdUpdate, bind_ok, revertIf_ok, exists_const, pure_ok,
        Prod.mk.injEq] at h
      obtain ⟨_, _, _, _, _, rfl, _⟩ := h
      rfl
    | approveThresholdUpdate =>
      simp only [execGovernance, approveThresholdUpdate, bind_ok, revertIf_ok, exists_const, pure_ok,
        Prod.mk.injEq] at h
      obtain ⟨_, _, _, _, rfl, _⟩ := h
      rfl

def thresholdKind : Kind ℕ where
  ballots := Governance.thresholds
  named
    | .proposeThresholdUpdate v n => some (v, n, .propose)
    | .approveThresholdUpdate v n => some (v, n, .approve)
    | .queueVaultReconfiguration v _ n => some (v, n, .queue)
    | .cancelVaultReconfiguration v _ n => some (v, n, .cancel)
    | .executeVaultReconfiguration v _ n => some (v, n, .execute)
    | _ => none
  unused := rfl
  created := by
    intro env g g' name description guardians approvalThreshold logs h
    obtain ⟨_, _, rfl⟩ := createVault_ok h
    rfl
  performed := by
    intro env g g' c logs h v target op hnamed
    cases c with
    | acceptGuardianInvite | proposeGuardianRemoval | approveGuardianRemoval => cases hnamed
    | proposeThresholdUpdate =>
      cases hnamed
      simp only [execGovernance, proposeThresholdUpdate, bind_ok, revertIf_ok, exists_const, pure_ok,
        Prod.mk.injEq] at h
      obtain ⟨hid, _, _, thresholds, hp, rfl, _⟩ := h
      exact ⟨hid, hp⟩
    | approveThresholdUpdate =>
      cases hnamed
      simp only [execGovernance, approveThresholdUpdate, bind_ok, revertIf_ok, exists_const, pure_ok,
        Prod.mk.injEq] at h
      obtain ⟨hid, _, thresholds, hp, rfl, _⟩ := h
      exact ⟨hid, hp⟩
    | queueVaultReconfiguration =>
      cases hnamed
      simp only [execGovernance, queueVaultReconfiguration, bind_ok, revertIf_ok, exists_const, pure_ok,
        Prod.mk.injEq] at h
      obtain ⟨hid, _, _, _, _, thresholds, hp, rfl, _⟩ := h
      exact ⟨hid, hp⟩
    | cancelVaultReconfiguration =>
      cases hnamed
      simp only [execGovernance, cancelVaultReconfiguration, bind_ok, revertIf_ok, exists_const, pure_ok,
        Prod.mk.injEq] at h
      obtain ⟨hid, _, _, rfl, _⟩ := h
      exact ⟨hid, rfl⟩
    | executeVaultReconfiguration =>
      cases hnamed
      exact ⟨(executeVaultReconfiguration_ok h).existing, (executeVaultReconfiguration_ok h).thresholds⟩
  untouched := by
    intro env g g' c logs h hnamed
    cases c with
    | proposeThresholdUpdate | approveThresholdUpdate | queueVaultReconfiguration
    | cancelVaultReconfiguration | executeVaultReconfiguration => cases hnamed
    | acceptGuardianInvite =>
      simp only [execGovernance, acceptGuardianInvite, bind_ok, revertIf_ok, exists_const, pure_ok,
        Prod.mk.injEq] at h
      obtain ⟨_, _, _, _, _, rfl, _⟩ := h
      rfl
    | proposeGuardianRemoval =>
      simp only [execGovernance, proposeGuardianRemoval, bind_ok, revertIf_ok, exists_const, pure_ok,
        Prod.mk.injEq] at h
      obtain ⟨_, _, _, _, _, _, rfl, _⟩ := h
      rfl
    | approveGuardianRemoval =>
      simp only [execGovernance, approveGuardianRemoval, bind_ok, revertIf_ok, exists_const, pure_ok,
        Prod.mk.injEq] at h
      obtain ⟨_, _, _, _, rfl, _⟩ := h
      rfl

/-! ## The projection of a run -/

section Projection
variable {κ : Type} [Inhabited κ] [DecidableEq κ] {L : Type} {chain : Chain} {nft : ERC721 L}
  {s s' : State L} (k : Kind κ)

def Kind.Names (op : BallotOp) (v : ℕ) (target : κ) (t : Transition (State L) Invocation) : Prop :=
  ∃ c, t.label.2 = .governance c ∧ k.named c = some (v, target, op)

def Kind.act (v : ℕ) (target : κ) (t : Transition (State L) Invocation) :
    Option (Timelock.Act Address) :=
  match t.label.2 with
  | .governance c =>
    match k.named c with
    | some (v', target', op) =>
      if v' = v ∧ target' = target then some (op.act t.label.1 (requiredApprovals t.pre.governance v))
      else none
    | none => none
  | _ => none

def Kind.slot (v : ℕ) (target : κ) (s : State L) : Timelock.Slot Address :=
  (k.ballots s.governance).slot v target

def Kind.history (v : ℕ) (target : κ) (hist : List (Transition (State L) Invocation)) :
    List (Transition (Timelock.Slot Address) (Timelock.Act Address)) :=
  hist.filterMap (Transition.project (k.slot v target) (k.act v target))

variable {k} {v : ℕ} {target : κ}

theorem Kind.act_eq_some {t : Transition (State L) Invocation} {j : Timelock.Act Address}
    (h : k.act v target t = some j) : ∃ op, k.Names op v target t ∧
      j = op.act t.label.1 (requiredApprovals t.pre.governance v) := by
  unfold Kind.act at h
  split at h
  · next c hc =>
    split at h
    · next v' target' op hn =>
      split at h
      · next heq =>
        obtain ⟨rfl, rfl⟩ := heq
        exact ⟨op, ⟨c, hc, hn⟩, (Option.some.inj h).symm⟩
      · cases h
    · cases h
  · cases h

theorem Kind.Names.act {op : BallotOp} {t : Transition (State L) Invocation}
    (h : k.Names op v target t) :
    k.act v target t = some (op.act t.label.1 (requiredApprovals t.pre.governance v)) := by
  obtain ⟨c, hc, hn⟩ := h
  simp [Kind.act, hc, hn]

theorem Steps.names_perform {i : Invocation} (hstep : Steps chain nft s i s') {op : BallotOp}
    (h : k.Names op v target ⟨s, i, s'⟩) : (s.governance.vaults v).id ≠ 0 ∧
    (k.ballots s.governance).perform i.1 (requiredApprovals s.governance v) v target op =
      .ok (k.ballots s'.governance) := by
  obtain ⟨c, hc, hn⟩ := h
  cases hstep.effect with
  | governance _ hexec =>
    cases hc
    exact k.performed hexec hn
  | _ => cases hc

theorem Steps.slot_kept {i : Invocation} (hstep : Steps chain nft s i s')
    (h : k.act v target ⟨s, i, s'⟩ = none) : k.slot v target s' = k.slot v target s := by
  cases hstep.effect with
  | createVault _ hcreate =>
    change (k.ballots _).slot v target = (k.ballots s.governance).slot v target
    rw [k.created hcreate]
  | @governance env c _ _ _ hexec =>
    change (k.ballots _).slot v target = (k.ballots s.governance).slot v target
    cases hn : k.named c with
    | none => rw [k.untouched hexec hn]
    | some named =>
      obtain ⟨v', target', op⟩ := named
      have hne : ¬ (v' = v ∧ target' = target) := fun heq => by
        simp [Kind.act, hn, heq] at h
      exact slot_other (k.performed hexec hn).2 fun heq => hne ⟨heq.1.symm, heq.2.symm⟩
  | _ => rfl

theorem Kind.slotRun (v : ℕ) (target : κ) {hist : List (Transition (State L) Invocation)}
    (h : VaultRun chain nft hist s) :
    Timelock.SlotRun (days 7) TIMELOCK_DELAY (k.history v target hist) (k.slot v target s) := by
  refine h.project (k.slot v target) ?_ ?_ ?_
  · rintro s ⟨deployer, rfl⟩
    have hunused : k.slot v target (State.deployed nft deployer) = (({} : Ballots κ).slot v target) :=
      congrArg (fun b => b.slot v target) k.unused
    rw [hunused]
    exact ⟨rfl, fun _ => rfl, rfl, rfl⟩
  · intro hist s i s' _ hstep hact
    exact hstep.slot_kept hact
  · intro hist s i s' j _ hstep hact
    obtain ⟨op, hnames, rfl⟩ := Kind.act_eq_some hact
    exact perform_step (hstep.names_perform hnames).2

end Projection
end ChainGuard.Evm
