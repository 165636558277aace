import ChainGuard.Evm.State
import ChainGuard.Library.Tally

/-! `SpooVaultAdminLogic`: guardian rotation and threshold governance, with the vault creation
and invite entry points of `SpooVault` that write the same storage. Removal and threshold
proposals go through the same checks, so each check is stated once for both kinds. -/
namespace ChainGuard.Evm
open Guarded
set_option autoImplicit false

def TIMELOCK_DELAY : ℕ := hours 24

def requiredQuorumApprovals (guardianCount : ℕ) : ℕ := (guardianCount + 1) / 2 + 1

/-! ## Proposals of either kind -/

section Ballots
variable {κ : Type} [Inhabited κ] [DecidableEq κ]

def Proposal.Live (p : Proposal κ) (now : ℕ) : Prop :=
  p.createdAt ≠ 0 ∧ now < p.expiresAt ∧ p.executed = false ∧ p.vetoed = false

/-- `hasRemovalProposal` and `hasThresholdProposal` when queueing and executing. -/
def Proposal.Open (p : Proposal κ) (now : ℕ) : Prop :=
  p.createdAt ≠ 0 ∧ p.executed = false ∧ now < p.expiresAt

/-- `hasRemovalProposal` and `hasThresholdProposal` when cancelling. -/
def Proposal.Pending (p : Proposal κ) : Prop := p.createdAt ≠ 0 ∧ p.executed = false

instance (p : Proposal κ) (now : ℕ) : Decidable (p.Live now) := inferInstanceAs (Decidable (_ ∧ _))

instance (p : Proposal κ) (now : ℕ) : Decidable (p.Open now) := inferInstanceAs (Decidable (_ ∧ _))

instance (p : Proposal κ) : Decidable p.Pending := inferInstanceAs (Decidable (_ ∧ _))

def Ballots.put (b : Ballots κ) (vaultId : ℕ) (target : κ) (p : Proposal κ) : Ballots κ :=
  { b with proposals := Mapping.set₂ b.proposals vaultId target p }

def Ballots.propose (env : Env) (b : Ballots κ) (vaultId : ℕ) (target : κ) : Result (Ballots κ) := do
  revertIf ((b.proposals vaultId target).Live env.timestamp) .ProposalNotExist
  pure (b.put vaultId target
    { vaultId, target, proposedBy := env.sender, approvedBy := [], executed := false, vetoed := false,
      createdAt := env.timestamp, expiresAt := env.timestamp + days 7, queuedAt := 0 })

def Ballots.approve (env : Env) (b : Ballots κ) (vaultId : ℕ) (target : κ) : Result (Ballots κ) := do
  let p := b.proposals vaultId target
  revertIf (p.createdAt = 0) .ProposalNotExist
  revertIf (p.expiresAt ≤ env.timestamp) .ProposalExpired
  revertIf (p.executed = true) .ProposalAlreadyExecuted
  revertIf (p.vetoed = true) .ProposalVetoed
  revertIf (b.hasApproved vaultId target env.sender = true) .ApprovalAlreadyGiven
  pure { b.put vaultId target { p with approvedBy := p.approvedBy ++ [env.sender] } with
    hasApproved := Mapping.set₃ b.hasApproved vaultId target env.sender true }

def Ballots.queue (env : Env) (b : Ballots κ) (vaultId : ℕ) (target : κ) (requiredApprovals : ℕ) :
    Result (Ballots κ) :=
  let p := b.proposals vaultId target
  if p.Open env.timestamp then do
    revertIf (p.vetoed = true) .ProposalVetoed
    revertIf (p.queuedAt ≠ 0) .ProposalAlreadyQueued
    revertIf (p.approvedBy.length < requiredApprovals) .InsufficientApprovalsForExecution
    pure (b.put vaultId target { p with queuedAt := env.timestamp })
  else pure b

def Ballots.cancel (b : Ballots κ) (vaultId : ℕ) (target : κ) : Ballots κ :=
  let p := b.proposals vaultId target
  if p.Pending then b.put vaultId target { p with vetoed := true } else b

def Ballots.execute (env : Env) (b : Ballots κ) (vaultId : ℕ) (target : κ) (requiredApprovals : ℕ) :
    Result (Ballots κ) :=
  let p := b.proposals vaultId target
  if p.Open env.timestamp then do
    revertIf (p.vetoed = true) .ProposalVetoed
    revertIf (p.queuedAt = 0) .ProposalNotQueued
    revertIf (env.timestamp < p.queuedAt + TIMELOCK_DELAY) .TimelockNotElapsed
    revertIf (p.approvedBy.length < requiredApprovals) .InsufficientApprovalsForExecution
    pure (b.put vaultId target { p with executed := true })
  else pure b

end Ballots

/-! ## Propose and approve -/

section Functions
variable (env : Env) (g : Governance)

def proposeGuardianRemoval (vaultId : ℕ) (guardianToRemove : Address) : Result (Output Governance) := do
  revertIf ((g.vaults vaultId).id = 0) .VaultNotExist
  revertIf (g.isGuardian vaultId env.sender = false) .OnlyGuardian
  revertIf (g.isGuardian vaultId guardianToRemove = false) .GuardianNotExists
  revertIf ((g.vaults vaultId).guardians.length ≤ 1) .CannotRemoveOnlyGuardian
  let removals ← g.removals.propose env vaultId guardianToRemove
  pure ({ g with removals }, [.GuardianRemovalProposed vaultId guardianToRemove env.sender])

def approveGuardianRemoval (vaultId : ℕ) (guardianToRemove : Address) : Result (Output Governance) := do
  revertIf ((g.vaults vaultId).id = 0) .VaultNotExist
  revertIf (g.isGuardian vaultId env.sender = false) .OnlyGuardian
  let removals ← g.removals.approve env vaultId guardianToRemove
  pure ({ g with removals }, [.GuardianRemovalApproved vaultId guardianToRemove env.sender])

def proposeThresholdUpdate (vaultId newThreshold : ℕ) : Result (Output Governance) := do
  revertIf ((g.vaults vaultId).id = 0) .VaultNotExist
  revertIf (g.isGuardian vaultId env.sender = false) .OnlyGuardian
  revertIf (newThreshold = 0 ∨ (g.vaults vaultId).guardians.length < newThreshold) .InvalidNewThreshold
  let thresholds ← g.thresholds.propose env vaultId newThreshold
  pure ({ g with thresholds }, [.ThresholdUpdateProposed vaultId newThreshold env.sender])

def approveThresholdUpdate (vaultId newThreshold : ℕ) : Result (Output Governance) := do
  revertIf ((g.vaults vaultId).id = 0) .VaultNotExist
  revertIf (g.isGuardian vaultId env.sender = false) .OnlyGuardian
  let thresholds ← g.thresholds.approve env vaultId newThreshold
  pure ({ g with thresholds }, [.ThresholdUpdateApproved vaultId newThreshold env.sender])

/-! ## Queue, cancel and execute a pair of proposals -/

def queueVaultReconfiguration (vaultId : ℕ) (guardianToRemove : Address) (newThreshold : ℕ) :
    Result (Output Governance) := do
  revertIf ((g.vaults vaultId).id = 0) .VaultNotExist
  revertIf (g.isGuardian vaultId env.sender = false) .OnlyGuardian
  let requiredApprovals := requiredQuorumApprovals (g.vaults vaultId).guardians.length
  revertIf (¬ (g.removals.proposals vaultId guardianToRemove).Open env.timestamp ∧
    ¬ (g.thresholds.proposals vaultId newThreshold).Open env.timestamp) .ProposalNotExist
  let removals ← g.removals.queue env vaultId guardianToRemove requiredApprovals
  let thresholds ← g.thresholds.queue env vaultId newThreshold requiredApprovals
  pure ({ g with removals, thresholds },
    [.VaultReconfigurationQueued vaultId guardianToRemove newThreshold (env.timestamp + TIMELOCK_DELAY)])

def cancelVaultReconfiguration (vaultId : ℕ) (guardianToRemove : Address) (newThreshold : ℕ) :
    Result (Output Governance) := do
  revertIf ((g.vaults vaultId).id = 0) .VaultNotExist
  revertIf ((g.vaults vaultId).creator ≠ env.sender) .OnlyVaultCreator
  revertIf (¬ (g.removals.proposals vaultId guardianToRemove).Pending ∧
    ¬ (g.thresholds.proposals vaultId newThreshold).Pending) .ProposalNotExist
  pure ({ g with
      removals := g.removals.cancel vaultId guardianToRemove
      thresholds := g.thresholds.cancel vaultId newThreshold },
    [.VaultReconfigurationCanceled vaultId guardianToRemove newThreshold env.sender])

/-- `_removeGuardian` -/
def removeGuardian (vaultId : ℕ) (guardianToRemove : Address) : Output Governance :=
  let vault := g.vaults vaultId
  ({ g with
      vaults := Function.update g.vaults vaultId
        { vault with guardians := Tally.swapRemove vault.guardians guardianToRemove }
      isGuardian := Mapping.set₂ g.isGuardian vaultId guardianToRemove false },
    [.GuardianRemoved vaultId guardianToRemove])

def setApprovalThreshold (vaultId newThreshold : ℕ) : Governance :=
  { g with
    vaults := Function.update g.vaults vaultId
      { g.vaults vaultId with approvalThreshold := uint96 newThreshold } }

def executeVaultReconfiguration (vaultId : ℕ) (guardianToRemove : Address) (newThreshold : ℕ) :
    Result (Output Governance) := do
  revertIf ((g.vaults vaultId).id = 0) .VaultNotExist
  let guardianCount := (g.vaults vaultId).guardians.length
  let requiredApprovals := requiredQuorumApprovals guardianCount
  let hasRemovalProposal := (g.removals.proposals vaultId guardianToRemove).Open env.timestamp
  let hasThresholdProposal := (g.thresholds.proposals vaultId newThreshold).Open env.timestamp
  revertIf (¬ hasRemovalProposal ∧ ¬ hasThresholdProposal) .ProposalNotExist
  let removals ← g.removals.execute env vaultId guardianToRemove requiredApprovals
  -- `currentGuardianCount--` is checked arithmetic
  revertIf (hasRemovalProposal ∧ guardianCount = 0) .Panic
  let removed := if hasRemovalProposal then removeGuardian g vaultId guardianToRemove else (g, [])
  let currentGuardianCount := if hasRemovalProposal then guardianCount - 1 else guardianCount
  let thresholds ← g.thresholds.execute env vaultId newThreshold requiredApprovals
  revertIf (hasThresholdProposal ∧ currentGuardianCount < newThreshold) .InvalidNewThreshold
  let updated :=
    if hasThresholdProposal then setApprovalThreshold removed.1 vaultId newThreshold else removed.1
  pure ({ updated with removals, thresholds },
    removed.2 ++ [.VaultReconfigurationExecuted vaultId guardianToRemove newThreshold])

/-! ## Vault creation and invites -/

/-- `_validateAndCountExternalGuardians`; `seen` are the entries before the current one. -/
def validateAndCountExternalGuardians (sender : Address) : List Address → List Address → Result ℕ
  | _, [] => pure 0
  | seen, guardian :: rest => do
    revertIf (guardian = 0) .ZeroAddressGuardian
    revertIf (guardian ∈ seen) .DuplicateGuardian
    let externalCount ← validateAndCountExternalGuardians sender (seen ++ [guardian]) rest
    pure (if guardian = sender then externalCount else externalCount + 1)

def inviteGuardian (vaultId : ℕ) (g : Governance) (guardian : Address) : Governance :=
  if guardian = env.sender then g
  else
    { g with
      userInviteVaultIds :=
        if (g.guardianInvites guardian vaultId).expiresAt = 0 then
          Function.update g.userInviteVaultIds guardian (g.userInviteVaultIds guardian ++ [vaultId])
        else g.userInviteVaultIds
      guardianInvites := Mapping.set₂ g.guardianInvites guardian vaultId
        { guardian, vaultId := uint64 vaultId, accepted := false,
          expiresAt := uint40 (env.timestamp + days 7) } }

/-- The governance part of `createVault`. -/
def createVault (name description : Bytes) (guardians : List Address) (approvalThreshold : ℕ) :
    Result (Output Governance) := do
  let externalGuardianCount ← validateAndCountExternalGuardians env.sender [] guardians
  revertIf (externalGuardianCount = 0) .AtLeastOneGuardian
  revertIf (approvalThreshold = 0 ∨ externalGuardianCount + 1 < approvalThreshold)
    .InvalidApprovalThreshold
  let vaultId := g.vaultIdCounter + 1
  let newVault := g.vaults vaultId
  let opened : Governance :=
    { g with
      vaultIdCounter := vaultId
      vaults := Function.update g.vaults vaultId
        { newVault with
          id := uint64 vaultId, creator := env.sender, name, description,
          approvalThreshold := uint96 approvalThreshold, isActive := true,
          createdAt := uint40 env.timestamp, guardians := newVault.guardians ++ [env.sender] }
      isGuardian := Mapping.set₂ g.isGuardian vaultId env.sender true }
  pure (guardians.foldl (inviteGuardian env vaultId) opened, [.VaultCreated vaultId env.sender name])

def acceptGuardianInvite (vaultId : ℕ) : Result (Output Governance) := do
  let vault := g.vaults vaultId
  let invite := g.guardianInvites env.sender vaultId
  revertIf (vault.isActive = false) .VaultNotActive
  revertIf (g.isGuardian vaultId env.sender = true) .AlreadyGuardian
  revertIf (invite.guardian = 0) .NoValidInvite
  revertIf (invite.accepted = true) .NoValidInvite
  revertIf (invite.expiresAt ≤ env.timestamp) .InviteExpired
  pure ({ g with
      guardianInvites := Mapping.set₂ g.guardianInvites env.sender vaultId { invite with accepted := true }
      isGuardian := Mapping.set₂ g.isGuardian vaultId env.sender true
      vaults := Function.update g.vaults vaultId
        { vault with guardians := vault.guardians ++ [env.sender] } },
    [.GuardianAdded vaultId env.sender])

end Functions
end ChainGuard.Evm
