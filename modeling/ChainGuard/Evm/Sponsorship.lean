import ChainGuard.Library.Pool
import ChainGuard.Evm.Paymaster

/-! The paymaster and its account at the entry point. Sponsors deposit and withdraw, the entry point
validates operations and later charges each of them once, in any order; the sponsors' balances are the
book, the deposit at the entry point is the pool that pays. -/
namespace ChainGuard.Evm.SpooPaymaster
open Guarded History
set_option autoImplicit false

/-! ## The system -/

/-- The storage, the deposit at the entry point, and the operations validated and not yet charged, each
with its context and maximal cost. -/
structure System where
  paymaster : Storage
  deposit : ℕ := 0
  pending : List (Bytes × ℕ) := []

inductive Call
  | receive
  | deposit
  | depositForVault (vaultId : ℕ)
  | depositForCreator (creator : Address)
  | withdrawVaultDeposit (vaultId amount : ℕ)
  | withdrawCreatorDeposit (amount : ℕ)
  | setRateLimits (newMaxOpsPerWindow newRateLimitWindow newMaxVaultOpsPerWindow : ℕ)
  | setSpooVault (newSpooVault : Address)
  | transferOwnership (newOwner : Address)
  | renounceOwnership
  | validatePaymasterUserOp (userOp : UserOperation) (maxCost : ℕ)
  | postOp (mode : PostOpMode) (context : Bytes) (maxCost actualGasCost : ℕ)

abbrev Invocation := CallEnv × Call

section Execution
variable (env : CallEnv) (s : System)

def execSponsor : Call → Result (Output (Storage × ℕ))
  | .receive | .deposit => depositForCreator env s.paymaster s.deposit env.sender
  | .depositForVault vaultId => depositForVault env s.paymaster s.deposit vaultId
  | .depositForCreator creator => depositForCreator env s.paymaster s.deposit creator
  | .withdrawVaultDeposit vaultId amount => withdrawVaultDeposit env s.paymaster s.deposit vaultId amount
  | .withdrawCreatorDeposit amount => withdrawCreatorDeposit env s.paymaster s.deposit amount
  | _ => .error .Unauthorized

def exec : Call → Result System
  | .setRateLimits newMaxOpsPerWindow newRateLimitWindow newMaxVaultOpsPerWindow => do
    let (paymaster, _) ← setRateLimits env s.paymaster newMaxOpsPerWindow newRateLimitWindow
      newMaxVaultOpsPerWindow
    pure { s with paymaster }
  | .setSpooVault newSpooVault => do
    let (paymaster, _) ← setSpooVault env s.paymaster newSpooVault
    pure { s with paymaster }
  | .transferOwnership newOwner => do
    let (paymaster, _) ← transferOwnership env s.paymaster newOwner
    pure { s with paymaster }
  | .renounceOwnership => do
    let (paymaster, _) ← renounceOwnership env s.paymaster
    pure { s with paymaster }
  | .validatePaymasterUserOp userOp maxCost => do
    let (paymaster, context) ← validatePaymasterUserOp env s.paymaster userOp maxCost
    pure { s with paymaster, pending := (context, maxCost) :: s.pending }
  | .postOp mode context maxCost actualGasCost => do
    -- the entry point charges a validated operation once, and no more than it announced or has
    revertIf ((context, maxCost) ∉ s.pending ∨ maxCost < actualGasCost ∨ s.deposit < actualGasCost)
      .EntryPointReverted
    let (paymaster, _) ← postOp env s.paymaster mode context actualGasCost
    pure { paymaster, deposit := s.deposit - actualGasCost, pending := s.pending.erase (context, maxCost) }
  | c => do
    let ((paymaster, deposit), _) ← execSponsor env s c
    pure { s with paymaster, deposit }

end Execution

def Steps (s : System) (i : Invocation) (s' : System) : Prop := exec i.1 s i.2 = .ok s'

/-- The constructor has run and nothing is deposited. -/
def Deployed (s : System) : Prop :=
  ∃ entryPoint spooVault owner, entryPoint ≠ 0 ∧ spooVault ≠ 0 ∧
    s = { paymaster := { entryPoint, spooVault, owner } }

abbrev PaymasterRun (hist : List (Transition System Invocation)) (s : System) : Prop :=
  Run Deployed Steps hist s

/-! ## The book -/

/-- The account that pays for an operation. -/
abbrev Sponsor := ℕ ⊕ Address

def Context.sponsor (c : Context) : Sponsor := if c.isVaultBalance then .inl c.vaultId else .inr c.creator

def Storage.balances (p : Storage) : Sponsor → ℕ := Sum.elim p.vaultSponsorBalances p.creatorSponsorBalances

def balances (s : System) : Sponsor → ℕ := s.paymaster.balances

def movement (t : Transition System Invocation) : Option (Pool.Move Sponsor) :=
  match t.label.2 with
  | .receive | .deposit => some (.credit (.inr t.label.1.sender) t.label.1.value)
  | .depositForVault vaultId => some (.credit (.inl vaultId) t.label.1.value)
  | .depositForCreator creator => some (.credit (.inr creator) t.label.1.value)
  | .withdrawVaultDeposit vaultId amount => some (.debit (.inl vaultId) amount)
  | .withdrawCreatorDeposit amount => some (.debit (.inr t.label.1.sender) amount)
  | .postOp _ context _ actualGasCost =>
    (decodeContext context).map fun c => .charge c.sponsor actualGasCost
  | _ => none

def Solvent (s : System) : Prop := Pool.total (balances s) ≤ s.deposit

/-! ## What the calls do to it -/

variable {env : CallEnv} {s s' : System} {p p' : Storage} {deposit deposit' : ℕ} {logs : List Event}
  {hist : List (Transition System Invocation)} {t : Transition System Invocation}

abbrev Effect (t : Transition System Invocation) : Prop :=
  Pool.Effect balances System.deposit movement t

theorem withdrawTo_ok {amount : ℕ} :
    withdrawTo env deposit amount = .ok deposit' ↔
      amount ≤ deposit ∧ env.accepts = true ∧ deposit - amount = deposit' := by
  simp only [withdrawTo, revertIf_bind, pure_ok, not_lt, Bool.not_eq_false]

theorem depositForVault_ok {vaultId : ℕ}
    (h : depositForVault env p deposit vaultId = .ok ((p', deposit'), logs)) :
    p' = p.setVaultBalance vaultId (p.vaultSponsorBalances vaultId + env.value) ∧
      deposit' = deposit + env.value := by
  simp only [depositForVault, depositTo, bind_ok, revertIf_ok, add_ok, exists_const, pure_ok,
    Prod.mk.injEq] at h
  obtain ⟨_, _, ⟨_, rfl⟩, _, ⟨_, rfl⟩, ⟨rfl, rfl⟩, _⟩ := h
  exact ⟨rfl, rfl⟩

theorem depositForCreator_ok {creator : Address}
    (h : depositForCreator env p deposit creator = .ok ((p', deposit'), logs)) :
    p' = p.setCreatorBalance creator (p.creatorSponsorBalances creator + env.value) ∧
      deposit' = deposit + env.value := by
  simp only [depositForCreator, depositTo, bind_ok, revertIf_ok, add_ok, exists_const, pure_ok,
    Prod.mk.injEq] at h
  obtain ⟨_, _, ⟨_, rfl⟩, _, ⟨_, rfl⟩, ⟨rfl, rfl⟩, _⟩ := h
  exact ⟨rfl, rfl⟩

theorem withdrawVaultDeposit_ok {vaultId amount : ℕ}
    (h : withdrawVaultDeposit env p deposit vaultId amount = .ok ((p', deposit'), logs)) :
    amount ≤ p.vaultSponsorBalances vaultId ∧
      p' = p.setVaultBalance vaultId (p.vaultSponsorBalances vaultId - amount) ∧
        deposit' + amount = deposit := by
  simp only [withdrawVaultDeposit, bind_ok, revertIf_ok, require_ok, withdrawTo_ok, exists_const, pure_ok,
    Prod.mk.injEq, not_lt] at h
  obtain ⟨_, _, _, _, hle, _, ⟨hpaid, _, rfl⟩, ⟨rfl, rfl⟩, _⟩ := h
  exact ⟨hle, rfl, Nat.sub_add_cancel hpaid⟩

theorem withdrawCreatorDeposit_ok {amount : ℕ}
    (h : withdrawCreatorDeposit env p deposit amount = .ok ((p', deposit'), logs)) :
    amount ≤ p.creatorSponsorBalances env.sender ∧
      p' = p.setCreatorBalance env.sender (p.creatorSponsorBalances env.sender - amount) ∧
        deposit' + amount = deposit := by
  simp only [withdrawCreatorDeposit, bind_ok, revertIf_ok, withdrawTo_ok, exists_const, pure_ok,
    Prod.mk.injEq, not_lt] at h
  obtain ⟨_, hle, _, ⟨hpaid, _, rfl⟩, ⟨rfl, rfl⟩, _⟩ := h
  exact ⟨hle, rfl, Nat.sub_add_cancel hpaid⟩

theorem Storage.balances_setVaultBalance (p : Storage) (vaultId n : ℕ) :
    (p.setVaultBalance vaultId n).balances = Function.update p.balances (.inl vaultId) n :=
  Sum.update_elim_inl.symm

theorem Storage.balances_setCreatorBalance (p : Storage) (creator : Address) (n : ℕ) :
    (p.setCreatorBalance creator n).balances = Function.update p.balances (.inr creator) n :=
  Sum.update_elim_inr.symm

theorem enforceRateLimits_balances {guardian : Address} {vaultId : ℕ}
    (h : enforceRateLimits env p guardian vaultId = .ok p') : p'.balances = p.balances := by
  simp only [enforceRateLimits, bind_ok, pure_ok] at h
  obtain ⟨_, _, _, _, rfl⟩ := h
  rfl

theorem postOp_ok {mode : PostOpMode} {context : Bytes} {actualGasCost : ℕ}
    (h : postOp env p mode context actualGasCost = .ok (p', logs)) :
    ∃ c, decodeContext context = some c ∧
      p'.balances = Function.update p.balances c.sponsor (p.balances c.sponsor - actualGasCost) := by
  simp only [postOp, bind_ok, revertIf_ok, require_ok, exists_const, pure_ok, Prod.mk.injEq] at h
  obtain ⟨_, c, hdecode, rfl, _⟩ := h
  refine ⟨c, hdecode, ?_⟩
  unfold Context.sponsor
  split
  · rw [Storage.balances_setVaultBalance, deduct_eq]
    rfl
  · rw [Storage.balances_setCreatorBalance, deduct_eq]
    rfl

theorem setRateLimits_balances {a b c : ℕ} (h : setRateLimits env p a b c = .ok (p', logs)) :
    p'.balances = p.balances := by
  simp only [setRateLimits, bind_ok, pure_ok, Prod.mk.injEq] at h
  obtain ⟨_, _, rfl, _⟩ := h
  rfl

theorem setSpooVault_balances {newSpooVault : Address} (h : setSpooVault env p newSpooVault = .ok (p', logs)) :
    p'.balances = p.balances := by
  simp only [setSpooVault, bind_ok, pure_ok, Prod.mk.injEq] at h
  obtain ⟨_, _, _, _, rfl, _⟩ := h
  rfl

theorem transferOwnership_balances {newOwner : Address}
    (h : transferOwnership env p newOwner = .ok (p', logs)) : p'.balances = p.balances := by
  simp only [transferOwnership, bind_ok, pure_ok, Prod.mk.injEq] at h
  obtain ⟨_, _, _, _, rfl, _⟩ := h
  rfl

theorem renounceOwnership_balances (h : renounceOwnership env p = .ok (p', logs)) :
    p'.balances = p.balances := by
  simp only [renounceOwnership, bind_ok, pure_ok, Prod.mk.injEq] at h
  obtain ⟨_, _, rfl, _⟩ := h
  rfl

theorem depositForCreator_effect {creator : Address} {c : Call}
    (hmove : movement ⟨s, (env, c), s'⟩ = some (.credit (.inr creator) env.value))
    (h : depositForCreator env s.paymaster s.deposit creator = .ok ((p', deposit'), logs))
    (hpost : s' = { s with paymaster := p', deposit := deposit' }) : Effect ⟨s, (env, c), s'⟩ := by
  obtain ⟨rfl, rfl⟩ := depositForCreator_ok h
  refine .credited _ _ hmove ?_ ?_
  · rw [hpost]
    exact Storage.balances_setCreatorBalance _ _ _
  · rw [hpost]

theorem Steps.effect {i : Invocation} (h : Steps s i s') : Effect ⟨s, i, s'⟩ := by
  obtain ⟨env, c⟩ := i
  cases c with
  | receive =>
    simp only [Steps, exec, execSponsor, bind_ok, pure_ok] at h
    obtain ⟨⟨⟨p', deposit'⟩, logs⟩, hdeposit, rfl⟩ := h
    exact depositForCreator_effect rfl hdeposit rfl
  | deposit =>
    simp only [Steps, exec, execSponsor, bind_ok, pure_ok] at h
    obtain ⟨⟨⟨p', deposit'⟩, logs⟩, hdeposit, rfl⟩ := h
    exact depositForCreator_effect rfl hdeposit rfl
  | depositForCreator creator =>
    simp only [Steps, exec, execSponsor, bind_ok, pure_ok] at h
    obtain ⟨⟨⟨p', deposit'⟩, logs⟩, hdeposit, rfl⟩ := h
    exact depositForCreator_effect rfl hdeposit rfl
  | depositForVault vaultId =>
    simp only [Steps, exec, execSponsor, bind_ok, pure_ok] at h
    obtain ⟨⟨⟨p', deposit'⟩, logs⟩, hdeposit, rfl⟩ := h
    obtain ⟨rfl, rfl⟩ := depositForVault_ok hdeposit
    exact .credited _ _ rfl (Storage.balances_setVaultBalance _ _ _) rfl
  | withdrawVaultDeposit vaultId amount =>
    simp only [Steps, exec, execSponsor, bind_ok, pure_ok] at h
    obtain ⟨⟨⟨p', deposit'⟩, logs⟩, hwithdraw, rfl⟩ := h
    obtain ⟨hle, rfl, hpool⟩ := withdrawVaultDeposit_ok hwithdraw
    exact .debited _ _ rfl hle (Storage.balances_setVaultBalance _ _ _) hpool
  | withdrawCreatorDeposit amount =>
    simp only [Steps, exec, execSponsor, bind_ok, pure_ok] at h
    obtain ⟨⟨⟨p', deposit'⟩, logs⟩, hwithdraw, rfl⟩ := h
    obtain ⟨hle, rfl, hpool⟩ := withdrawCreatorDeposit_ok hwithdraw
    exact .debited _ _ rfl hle (Storage.balances_setCreatorBalance _ _ _) hpool
  | setRateLimits a b c =>
    simp only [Steps, exec, bind_ok, pure_ok] at h
    obtain ⟨⟨p', logs⟩, hset, rfl⟩ := h
    exact .kept rfl (setRateLimits_balances hset) rfl
  | setSpooVault newSpooVault =>
    simp only [Steps, exec, bind_ok, pure_ok] at h
    obtain ⟨⟨p', logs⟩, hset, rfl⟩ := h
    exact .kept rfl (setSpooVault_balances hset) rfl
  | transferOwnership newOwner =>
    simp only [Steps, exec, bind_ok, pure_ok] at h
    obtain ⟨⟨p', logs⟩, hset, rfl⟩ := h
    exact .kept rfl (transferOwnership_balances hset) rfl
  | renounceOwnership =>
    simp only [Steps, exec, bind_ok, pure_ok] at h
    obtain ⟨⟨p', logs⟩, hset, rfl⟩ := h
    exact .kept rfl (renounceOwnership_balances hset) rfl
  | validatePaymasterUserOp userOp maxCost =>
    simp only [Steps, exec, bind_ok, pure_ok] at h
    obtain ⟨⟨p', context⟩, hvalidate, rfl⟩ := h
    obtain ⟨c, hvalidated, _⟩ := validatePaymasterUserOp_ok.mp hvalidate
    exact .kept rfl (enforceRateLimits_balances hvalidated.limits) rfl
  | postOp mode context maxCost actualGasCost =>
    simp only [Steps, exec, bind_ok, revertIf_ok, exists_const, pure_ok, not_or, not_lt] at h
    obtain ⟨⟨_, _, hle⟩, ⟨p', logs⟩, hpost, rfl⟩ := h
    obtain ⟨c, hdecode, hbalances⟩ := postOp_ok hpost
    refine .charged c.sponsor actualGasCost ?_ hbalances (Nat.sub_add_cancel hle)
    show (decodeContext context).map _ = _
    rw [hdecode]
    rfl

theorem exceeds (h : PaymasterRun hist s) :
    Pool.Exceeds balances System.deposit movement hist s := by
  refine Pool.exceeds ?_ (fun _ _ _ _ _ hstep => Steps.effect hstep) h
  rintro s ⟨entryPoint, spooVault, owner, _, _, rfl⟩
  refine ⟨?_, rfl⟩
  funext sponsor
  cases sponsor with
  | inl vaultId => rfl
  | inr creator => rfl

/-! ## Validated operations -/

/-- The operation was validated in the history, and its context names the sponsor selected there. -/
def Announced (hist : List (Transition System Invocation)) (context : Bytes) (maxCost : ℕ) : Prop :=
  ∃ t ∈ hist, ∃ userOp c, t.label.2 = .validatePaymasterUserOp userOp maxCost ∧
    decodeContext context = some c ∧
      Validated t.label.1 t.pre.paymaster userOp maxCost t.post.paymaster c

theorem Announced.later {context : Bytes} {maxCost : ℕ} (h : Announced hist context maxCost) :
    Announced (t :: hist) context maxCost := by
  obtain ⟨t', ht', hrest⟩ := h
  exact ⟨t', List.mem_cons_of_mem _ ht', hrest⟩

theorem pending_announced (h : PaymasterRun hist s) :
    ∀ e ∈ s.pending, Announced hist e.1 e.2 := by
  refine h.relates (R := fun hist s => ∀ e ∈ s.pending, Announced hist e.1 e.2) ?_ ?_
  · rintro s ⟨entryPoint, spooVault, owner, _, _, rfl⟩ e he
    cases he
  · intro hist s i s' _ ih hstep e he
    obtain ⟨env, c⟩ := i
    cases c with
    | validatePaymasterUserOp userOp maxCost =>
      simp only [Steps, exec, bind_ok, pure_ok] at hstep
      obtain ⟨⟨p', context⟩, hvalidate, rfl⟩ := hstep
      rcases List.mem_cons.mp he with rfl | he
      · obtain ⟨c, hvalidated, hcontext⟩ := validatePaymasterUserOp_ok.mp hvalidate
        have hdecode : decodeContext context = some c := by
          rw [hcontext, decodeContext_encode hvalidated.vaultId_lt]
        exact ⟨_, List.mem_cons_self .., userOp, c, rfl, hdecode, hvalidated⟩
      · exact (ih e he).later
    | postOp mode context maxCost actualGasCost =>
      simp only [Steps, exec, bind_ok, revertIf_ok, exists_const, pure_ok] at hstep
      obtain ⟨_, _, _, rfl⟩ := hstep
      exact (ih e (List.mem_of_mem_erase he)).later
    | _ =>
      simp only [Steps, exec, bind_ok, pure_ok] at hstep
      obtain ⟨_, _, rfl⟩ := hstep
      exact (ih e he).later

/-- In every run the balances stay within the deposit exactly when every charge finds the balance of its
sponsor covering it, which is when it is deducted in full; and every charge is at the expense of the
sponsor that the validation of its operation selected. -/
theorem solvent_iff (h : PaymasterRun hist s) :
    ((∀ early mid, Visits hist s early mid → Solvent mid) ↔
      ∀ t ∈ hist, Pool.Covered balances movement t) ∧
    ((∀ t ∈ hist, Pool.Deducted balances movement t) ↔ ∀ t ∈ hist, Pool.Covered balances movement t) ∧
    ∀ t earlier, t :: earlier <:+ hist → ∀ mode context maxCost actualGasCost,
      t.label.2 = .postOp mode context maxCost actualGasCost → Announced earlier context maxCost := by
  refine ⟨?_, ?_, ?_⟩
  · constructor
    · intro hsolvent
      exact (exceeds h).within_iff.mp (hsolvent hist s .here)
    · intro hcovered early mid hvisit
      refine (exceeds (hvisit.run h)).within_iff.mpr ?_
      intro t ht
      exact hcovered t (hvisit.suffix.subset ht)
  · refine forall₂_congr fun t ht => ?_
    obtain ⟨earlier, _, _, hstep⟩ := h.of_mem ht
    exact (Steps.effect hstep).deducted_iff
  · intro t earlier hsuffix mode context maxCost actualGasCost hcall
    obtain ⟨hbefore, hstep⟩ := h.suffix_step hsuffix
    obtain ⟨pre, ⟨env, c⟩, post⟩ := t
    obtain rfl : c = .postOp mode context maxCost actualGasCost := hcall
    simp only [Steps, exec, bind_ok, revertIf_ok, exists_const, not_or, not_not] at hstep
    obtain ⟨⟨hpending, _⟩, _⟩ := hstep
    exact pending_announced hbefore _ hpending

/-! ## Two operations of one vault -/

/-- A vault contract with vault 1 of account 1 and vault 2 of account 2. -/
def twoVaults : VaultView where
  getVaultCreator := fun vaultId => if vaultId = 1 ∨ vaultId = 2 then some (BitVec.ofNat 160 vaultId) else none
  accessRequests := fun _ => none
  documents := fun _ => none

def paying (sender : Address) (value timestamp : ℕ) (hs : decide (sender ≠ 0) = true := by exact (rfl : true = true))
    (ht : decide (0 < timestamp) = true := by exact (rfl : true = true)) : CallEnv :=
  { sender, value, timestamp, number := 0, sender_ne := ne_zero_of_decide hs, timestamp_pos := pos_of_decide ht
    vaultAt := fun _ => twoVaults }

/-- Account 5 accepts its invite to vault 1. -/
def acceptance : UserOperation := { sender := 5, callData := executed 0x70 (callData ACCEPT_INVITE_SELECTOR 1) }

def acceptanceContext : Bytes := encodeContext ⟨1, 1, true, 5⟩

/-- Both vaults are given 100, and the entry point validates two operations of vault 1. -/
def validatedTwice : List Invocation :=
  [(paying 1 100 10, .depositForVault 1), (paying 2 100 11, .depositForVault 2),
    (paying 0x60 0 12, .validatePaymasterUserOp acceptance 100),
    (paying 0x60 0 12, .validatePaymasterUserOp acceptance 100)]

def paymasterDeployed : System := { paymaster := { entryPoint := 0x60, spooVault := 0x70, owner := 9 } }

theorem deployed : Deployed paymasterDeployed := ⟨0x60, 0x70, 9, by decide, by decide, rfl⟩

theorem exists_run (calls : List Invocation) (p : List (Transition System Invocation) → System → Bool)
    (h : endsIn (fun s i => exec i.1 s i.2) paymasterDeployed calls p = true) :
    ∃ hist final, PaymasterRun hist final ∧ p hist final = true :=
  exists_run_of_endsIn deployed h

/-- The operations cost what the vault has, together. -/
theorem solvent_covered : ∃ hist s, PaymasterRun hist s ∧ s.deposit = 100 ∧
    ∀ early mid, Visits hist s early mid → Solvent mid := by
  obtain ⟨hist, s, hrun, hp⟩ := exists_run
    (validatedTwice ++ [(paying 0x60 0 12, .postOp .opSucceeded acceptanceContext 100 60),
      (paying 0x60 0 12, .postOp .opSucceeded acceptanceContext 100 40)])
    (fun hist s => decide (s.deposit = 100 ∧ ∀ t ∈ hist, Pool.shortfall balances movement t = 0))
    (by decide +kernel)
  obtain ⟨hdeposit, hcovered⟩ := of_decide_eq_true hp
  refine ⟨hist, s, hrun, hdeposit, (solvent_iff hrun).1.mpr fun t ht => ?_⟩
  exact Pool.covered_iff_shortfall.mpr (hcovered t ht)

/-- They cost twice that: the deposit is gone and vault 2 still has its 100 in the book. -/
theorem operations_overdraw : ∃ hist s, PaymasterRun hist s ∧ ¬ Solvent s ∧ s.deposit = 0 ∧
    s.paymaster.vaultSponsorBalances 2 = 100 := by
  obtain ⟨hist, s, hrun, hp⟩ := exists_run
    (validatedTwice ++ [(paying 0x60 0 12, .postOp .opSucceeded acceptanceContext 100 100),
      (paying 0x60 0 12, .postOp .opSucceeded acceptanceContext 100 100)])
    (fun hist s => decide ((hist.map (Pool.shortfall balances movement)).sum = 100 ∧ s.deposit = 0 ∧
      s.paymaster.vaultSponsorBalances 2 = 100)) (by decide +kernel)
  obtain ⟨hshort, hdeposit, hvault⟩ := of_decide_eq_true hp
  refine ⟨hist, s, hrun, ?_, hdeposit, hvault⟩
  have hgap : Pool.total (balances s) = s.deposit + (hist.map (Pool.shortfall balances movement)).sum :=
    (exceeds hrun).gap
  rw [hshort] at hgap
  intro hsolvent
  have hle : Pool.total (balances s) ≤ s.deposit := hsolvent
  omega

end ChainGuard.Evm.SpooPaymaster
