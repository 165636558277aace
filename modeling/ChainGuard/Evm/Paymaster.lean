import ChainGuard.Evm.Abi

/-! `SpooPaymaster`: the storage, the deposits and withdrawals of sponsors, and the two calls of the
entry point, validation and `postOp`. The vault is another contract, which the paymaster reads by
calls whose returned data it decodes by position. -/
namespace ChainGuard.Evm.SpooPaymaster
open Guarded
set_option autoImplicit false

/-! ## The contract and what it runs on -/

structure UserOperation where
  sender : Address
  callData : Bytes := []
  paymasterAndData : Bytes := []

inductive PostOpMode
  | opSucceeded
  | opReverted
  | postOpReverted
  deriving DecidableEq, Repr

/-- The custom errors, those of the contracts it calls, and the compiler's own. -/
inductive PaymasterError
  | OnlyEntryPoint
  | InvalidTarget (target : Address)
  | UnauthorizedMethod (selector : ℕ)
  | InvalidCallData
  | InvalidVault (vaultId : ℕ)
  | InsufficientSponsorBalance (vaultId : ℕ) (creator : Address) (requiredAmount : ℕ)
  | RateLimitExceeded (guardian : Address)
  | VaultRateLimitExceeded (vaultId : ℕ)
  | ZeroDeposit
  | ZeroAmount
  | Unauthorized
  | InsufficientBalance
  | ZeroAddress
  | OwnableUnauthorizedAccount (account : Address)
  | OwnableInvalidOwner (owner : Address)
  | Panic
  | Undecodable
  | VaultReverted
  | EntryPointReverted
  deriving DecidableEq, Repr

abbrev Result (α : Type) := Except PaymasterError α

inductive Event
  | VaultDeposit (vaultId : ℕ) (sender : Address) (amount : ℕ)
  | CreatorDeposit (creator : Address) (amount : ℕ)
  | VaultWithdrawal (vaultId : ℕ) (creator : Address) (amount : ℕ)
  | CreatorWithdrawal (creator : Address) (amount : ℕ)
  | GasSponsored (vaultId : ℕ) (creator guardian : Address) (actualGasCost : ℕ) (mode : PostOpMode)
  | RateLimitsUpdated (maxOpsPerWindow rateLimitWindow maxVaultOpsPerWindow : ℕ)
  | SpooVaultUpdated (newSpooVault : Address)
  | OwnershipTransferred (previousOwner newOwner : Address)
  deriving DecidableEq, Repr

/-- A vault as the paymaster calls it: the creator of a vault and the data of two public getters,
unless the call reverts. -/
structure VaultView where
  getVaultCreator : ℕ → Option Address
  accessRequests : ℕ → Option Bytes
  documents : ℕ → Option Bytes

/-- A call of the paymaster: the money sent with it and the contracts it reads. -/
structure CallEnv extends Env where
  value : ℕ := 0
  vaultAt : Address → VaultView
  /-- Whether the caller takes the money that the entry point pays out. -/
  accepts : Bool := true

structure Storage where
  entryPoint : Address
  spooVault : Address
  owner : Address
  vaultSponsorBalances : ℕ → ℕ := fun _ => 0
  creatorSponsorBalances : Address → ℕ := fun _ => 0
  maxOpsPerWindow : ℕ := 10
  rateLimitWindow : ℕ := hours 1
  maxVaultOpsPerWindow : ℕ := 50
  guardianOpCount : Address → ℕ := fun _ => 0
  guardianWindowStart : Address → ℕ := fun _ => 0
  vaultOpCount : ℕ → ℕ := fun _ => 0
  vaultWindowStart : ℕ → ℕ := fun _ => 0

def Storage.setVaultBalance (p : Storage) (vaultId balance : ℕ) : Storage :=
  { p with vaultSponsorBalances := Function.update p.vaultSponsorBalances vaultId balance }

def Storage.setCreatorBalance (p : Storage) (creator : Address) (balance : ℕ) : Storage :=
  { p with creatorSponsorBalances := Function.update p.creatorSponsorBalances creator balance }

abbrev Output (α : Type) := α × List Event

def add (a b : ℕ) : Result ℕ := do
  revertIf (2 ^ 256 ≤ a + b) .Panic
  pure (a + b)

def require {α : Type} (o : Option α) (e : PaymasterError) : Result α :=
  match o with
  | some a => pure a
  | none => .error e

@[simp] theorem require_ok {α : Type} {o : Option α} {e : PaymasterError} {a : α} :
    require o e = .ok a ↔ o = some a := by
  cases o <;> simp [require]

@[simp] theorem add_ok {a b n : ℕ} : add a b = .ok n ↔ a + b < 2 ^ 256 ∧ a + b = n := by
  rw [add, revertIf_bind, pure_ok, not_le]

/-! ## The entry point's account of the paymaster -/

def depositTo (deposit value : ℕ) : Result ℕ := add deposit value

def withdrawTo (env : CallEnv) (deposit withdrawAmount : ℕ) : Result ℕ := do
  revertIf (deposit < withdrawAmount) .EntryPointReverted
  revertIf (env.accepts = false) .EntryPointReverted
  pure (deposit - withdrawAmount)

section Functions
variable (env : CallEnv) (p : Storage) (deposit : ℕ)

/-! ## Deposits and withdrawals -/

def depositForVault (vaultId : ℕ) : Result (Output (Storage × ℕ)) := do
  revertIf (env.value = 0) .ZeroDeposit
  let balance ← add (p.vaultSponsorBalances vaultId) env.value
  let deposit ← depositTo deposit env.value
  pure ((p.setVaultBalance vaultId balance, deposit), [.VaultDeposit vaultId env.sender env.value])

/-- Also `receive` and `deposit`, for the sender. -/
def depositForCreator (creator : Address) : Result (Output (Storage × ℕ)) := do
  revertIf (env.value = 0) .ZeroDeposit
  let balance ← add (p.creatorSponsorBalances creator) env.value
  let deposit ← depositTo deposit env.value
  pure ((p.setCreatorBalance creator balance, deposit), [.CreatorDeposit creator env.value])

def withdrawVaultDeposit (vaultId amount : ℕ) : Result (Output (Storage × ℕ)) := do
  revertIf (amount = 0) .ZeroAmount
  let creator ← require ((env.vaultAt p.spooVault).getVaultCreator vaultId) .VaultReverted
  revertIf (env.sender ≠ creator) .Unauthorized
  let balance := p.vaultSponsorBalances vaultId
  revertIf (balance < amount) .InsufficientBalance
  let deposit ← withdrawTo env deposit amount
  pure ((p.setVaultBalance vaultId (balance - amount), deposit), [.VaultWithdrawal vaultId env.sender amount])

def withdrawCreatorDeposit (amount : ℕ) : Result (Output (Storage × ℕ)) := do
  revertIf (amount = 0) .ZeroAmount
  let balance := p.creatorSponsorBalances env.sender
  revertIf (balance < amount) .InsufficientBalance
  let deposit ← withdrawTo env deposit amount
  pure ((p.setCreatorBalance env.sender (balance - amount), deposit), [.CreatorWithdrawal env.sender amount])

/-! ## Parsing an operation -/

/-- `execute(address,uint256,bytes)` -/
def EXECUTE_SELECTOR : ℕ := 0xb61d27f6
/-- `executeCall(address,uint256,bytes)` -/
def EXECUTE_CALL_SELECTOR : ℕ := 0x9e5d4c49
/-- `acceptGuardianInvite(uint256)` -/
def ACCEPT_INVITE_SELECTOR : ℕ := 0x0f576ff1
/-- `approveAccess(uint256)` -/
def APPROVE_ACCESS_SELECTOR : ℕ := 0x568497bb
/-- `approveAccess(uint256,string)` -/
def APPROVE_ACCESS_ENCRYPTED_SELECTOR : ℕ := 0xc050099e

def firstArgument (data : Bytes) : ℕ := if 36 ≤ data.length then Abi.wordAt data 4 else 0

def parseCallData (callData : Bytes) : Result (Address × ℕ × ℕ) := do
  revertIf (callData.length < 4) .InvalidCallData
  let topSelector := Abi.selector callData
  if topSelector = EXECUTE_SELECTOR ∨ topSelector = EXECUTE_CALL_SELECTOR then
    revertIf (callData.length < 100) .InvalidCallData
    let (dest, _, innerData) ← require (Abi.decodeCall (callData.drop 4)) .Undecodable
    revertIf (innerData.length < 4) .InvalidCallData
    pure (dest, Abi.selector innerData, firstArgument innerData)
  else
    -- a call that is not wrapped counts as a call of the vault
    pure (p.spooVault, topSelector, firstArgument callData)

/-- The vault of the document of a request, or zero where the two getters do not lead to one. -/
def requestVaultId (requestId : ℕ) : Result ℕ :=
  match (env.vaultAt p.spooVault).accessRequests requestId with
  | none => pure 0
  | some reqData =>
    if reqData.length < 64 ∨ Abi.wordAt reqData 32 = 0 then pure 0
    else
      match (env.vaultAt p.spooVault).documents (Abi.wordAt reqData 32) with
      | none => pure 0
      | some docData =>
        if docData.length < 64 then pure 0
        else do
          let _ ← require (Abi.asUint64 (Abi.wordAt docData 0)) .Undecodable
          require (Abi.asUint64 (Abi.wordAt docData 32)) .Undecodable

def resolveVaultId (selector param : ℕ) (paymasterAndData : Bytes) : Result ℕ :=
  if selector = ACCEPT_INVITE_SELECTOR then pure param
  else if selector = APPROVE_ACCESS_SELECTOR ∨ selector = APPROVE_ACCESS_ENCRYPTED_SELECTOR then do
    let vaultId ← requestVaultId env p param
    if vaultId = 0 ∧ 52 ≤ paymasterAndData.length then pure (Abi.wordAt paymasterAndData 20)
    else pure vaultId
  else pure 0

/-! ## Rate limits -/

def countOp (windowStart opCount maxOps : ℕ) (exceeded : PaymasterError) : Result (ℕ × ℕ) := do
  let windowEnd ← add windowStart p.rateLimitWindow
  if windowEnd ≤ env.timestamp then pure (env.timestamp, 1)
  else
    revertIf (maxOps ≤ opCount) exceeded
    pure (windowStart, opCount + 1)

def enforceRateLimits (guardian : Address) (vaultId : ℕ) : Result Storage := do
  let (guardianStart, guardianCount) ← countOp env p (p.guardianWindowStart guardian)
    (p.guardianOpCount guardian) p.maxOpsPerWindow (.RateLimitExceeded guardian)
  let (vaultStart, vaultCount) ← countOp env p (p.vaultWindowStart vaultId)
    (p.vaultOpCount vaultId) p.maxVaultOpsPerWindow (.VaultRateLimitExceeded vaultId)
  pure { p with
    guardianWindowStart := Function.update p.guardianWindowStart guardian guardianStart
    guardianOpCount := Function.update p.guardianOpCount guardian guardianCount
    vaultWindowStart := Function.update p.vaultWindowStart vaultId vaultStart
    vaultOpCount := Function.update p.vaultOpCount vaultId vaultCount }

/-! ## The entry point's calls -/

/-- What `postOp` is told of the operation. -/
structure Context where
  vaultId : ℕ
  creator : Address
  isVaultBalance : Bool
  guardian : Address
  deriving DecidableEq

/-- `abi.encode(vaultId, creator, isVaultBalance, userOp.sender)` -/
def encodeContext (c : Context) : Bytes :=
  Abi.encode [.word c.vaultId, .word c.creator.toNat, .word c.isVaultBalance.toNat, .word c.guardian.toNat]

/-- `abi.decode(context, (uint256, address, bool, address))` -/
def decodeContext (context : Bytes) : Option Context :=
  if context.length < 128 then none
  else do
    let creator ← Abi.asAddress (Abi.wordAt context 32)
    let isVaultBalance ← Abi.asBool (Abi.wordAt context 64)
    let guardian ← Abi.asAddress (Abi.wordAt context 96)
    pure { vaultId := Abi.wordAt context 0, creator, isVaultBalance, guardian }

/-- The storage and the context; `validationData` is always zero. -/
def validatePaymasterUserOp (userOp : UserOperation) (maxCost : ℕ) : Result (Storage × Bytes) := do
  revertIf (env.sender ≠ p.entryPoint) .OnlyEntryPoint
  let (target, selector, param) ← parseCallData p userOp.callData
  revertIf (target ≠ p.spooVault) (.InvalidTarget target)
  revertIf (selector ≠ ACCEPT_INVITE_SELECTOR ∧ selector ≠ APPROVE_ACCESS_SELECTOR ∧
    selector ≠ APPROVE_ACCESS_ENCRYPTED_SELECTOR) (.UnauthorizedMethod selector)
  let vaultId ← resolveVaultId env p selector param userOp.paymasterAndData
  let creator ← require ((env.vaultAt p.spooVault).getVaultCreator vaultId) .VaultReverted
  revertIf (creator = 0) (.InvalidVault vaultId)
  let counted ← enforceRateLimits env p userOp.sender vaultId
  let isVaultBalance := decide (maxCost ≤ p.vaultSponsorBalances vaultId)
  revertIf (isVaultBalance = false ∧ p.creatorSponsorBalances creator < maxCost)
    (.InsufficientSponsorBalance vaultId creator maxCost)
  pure (counted, encodeContext { vaultId, creator, isVaultBalance, guardian := userOp.sender })

/-- `balance -= cost`, stopping at zero. -/
def deduct (balance actualGasCost : ℕ) : ℕ := if actualGasCost ≤ balance then balance - actualGasCost else 0

def postOp (mode : PostOpMode) (context : Bytes) (actualGasCost : ℕ) : Result (Output Storage) := do
  revertIf (env.sender ≠ p.entryPoint) .OnlyEntryPoint
  let c ← require (decodeContext context) .Undecodable
  let charged := if c.isVaultBalance then
      p.setVaultBalance c.vaultId (deduct (p.vaultSponsorBalances c.vaultId) actualGasCost)
    else p.setCreatorBalance c.creator (deduct (p.creatorSponsorBalances c.creator) actualGasCost)
  pure (charged, [.GasSponsored c.vaultId c.creator c.guardian actualGasCost mode])

/-! ## Configuration -/

def setRateLimits (newMaxOpsPerWindow newRateLimitWindow newMaxVaultOpsPerWindow : ℕ) :
    Result (Output Storage) := do
  revertIf (env.sender ≠ p.owner) (.OwnableUnauthorizedAccount env.sender)
  pure ({ p with
      maxOpsPerWindow := newMaxOpsPerWindow
      rateLimitWindow := newRateLimitWindow
      maxVaultOpsPerWindow := newMaxVaultOpsPerWindow },
    [.RateLimitsUpdated newMaxOpsPerWindow newRateLimitWindow newMaxVaultOpsPerWindow])

def setSpooVault (newSpooVault : Address) : Result (Output Storage) := do
  revertIf (env.sender ≠ p.owner) (.OwnableUnauthorizedAccount env.sender)
  revertIf (newSpooVault = 0) .ZeroAddress
  pure ({ p with spooVault := newSpooVault }, [.SpooVaultUpdated newSpooVault])

def transferOwnership (newOwner : Address) : Result (Output Storage) := do
  revertIf (env.sender ≠ p.owner) (.OwnableUnauthorizedAccount env.sender)
  revertIf (newOwner = 0) (.OwnableInvalidOwner 0)
  pure ({ p with owner := newOwner }, [.OwnershipTransferred p.owner newOwner])

def renounceOwnership : Result (Output Storage) := do
  revertIf (env.sender ≠ p.owner) (.OwnableUnauthorizedAccount env.sender)
  pure ({ p with owner := 0 }, [.OwnershipTransferred p.owner 0])

end Functions

/-! ## A concrete operation -/

/-- `execute` of a call of the contract. -/
def executed (target : Address) (innerData : Bytes) : Bytes :=
  bytesBE 4 EXECUTE_SELECTOR ++ Abi.encode [.word target.toNat, .word 0, .bytes innerData]

def callData (sel arg : ℕ) : Bytes := bytesBE 4 sel ++ word arg

/-! ## What the functions do -/

variable {env : CallEnv} {p p' : Storage} {deposit deposit' : ℕ} {logs : List Event}

theorem deduct_eq (balance actualGasCost : ℕ) : deduct balance actualGasCost = balance - actualGasCost := by
  unfold deduct
  split
  · rfl
  · next h => exact (Nat.sub_eq_zero_of_le (Nat.le_of_not_le h)).symm

theorem decodeContext_encode {c : Context} (h : c.vaultId < 2 ^ 256) :
    decodeContext (encodeContext c) = some c := by
  have hlength : ¬ (encodeContext c).length < 128 :=
    Nat.not_lt.mpr (Abi.le_encode_length [.word c.vaultId, .word c.creator.toNat,
      .word c.isVaultBalance.toNat, .word c.guardian.toNat])
  have hvault : Abi.wordAt (encodeContext c) 0 = c.vaultId := by
    have hread := Abi.wordAt_encode [] [.word c.creator.toNat, .word c.isVaultBalance.toNat,
      .word c.guardian.toNat] c.vaultId
    rwa [Nat.mod_eq_of_lt h] at hread
  have hcreator : Abi.wordAt (encodeContext c) 32 = c.creator.toNat := by
    have hread := Abi.wordAt_encode [.word c.vaultId] [.word c.isVaultBalance.toNat,
      .word c.guardian.toNat] c.creator.toNat
    rwa [Nat.mod_eq_of_lt (c.creator.isLt.trans (by decide))] at hread
  have hflag : Abi.wordAt (encodeContext c) 64 = c.isVaultBalance.toNat := by
    have hread := Abi.wordAt_encode [.word c.vaultId, .word c.creator.toNat] [.word c.guardian.toNat]
      c.isVaultBalance.toNat
    rwa [Nat.mod_eq_of_lt ((Bool.toNat_lt c.isVaultBalance).trans (by decide))] at hread
  have hguardian : Abi.wordAt (encodeContext c) 96 = c.guardian.toNat := by
    have hread := Abi.wordAt_encode [.word c.vaultId, .word c.creator.toNat,
      .word c.isVaultBalance.toNat] [] c.guardian.toNat
    rwa [Nat.mod_eq_of_lt (c.guardian.isLt.trans (by decide))] at hread
  rw [decodeContext, if_neg hlength, hvault, hcreator, hflag, hguardian]
  simp

/-- A validated operation: what its calldata leads to, and the context recorded for it. -/
structure Validated (env : CallEnv) (p : Storage) (userOp : UserOperation) (maxCost : ℕ) (p' : Storage)
    (c : Context) : Prop where
  entryPoint : env.sender = p.entryPoint
  resolved : ∃ selector param, parseCallData p userOp.callData = .ok (p.spooVault, selector, param) ∧
    (selector = ACCEPT_INVITE_SELECTOR ∨ selector = APPROVE_ACCESS_SELECTOR ∨
      selector = APPROVE_ACCESS_ENCRYPTED_SELECTOR) ∧
    resolveVaultId env p selector param userOp.paymasterAndData = .ok c.vaultId
  creator : (env.vaultAt p.spooVault).getVaultCreator c.vaultId = some c.creator
  exists_creator : c.creator ≠ 0
  limits : enforceRateLimits env p userOp.sender c.vaultId = .ok p'
  vaultBalance : c.isVaultBalance = decide (maxCost ≤ p.vaultSponsorBalances c.vaultId)
  affords : c.isVaultBalance = true ∨ maxCost ≤ p.creatorSponsorBalances c.creator
  guardian : c.guardian = userOp.sender

theorem validatePaymasterUserOp_ok {userOp : UserOperation} {maxCost : ℕ} {context : Bytes} :
    validatePaymasterUserOp env p userOp maxCost = .ok (p', context) ↔
      ∃ c, Validated env p userOp maxCost p' c ∧ context = encodeContext c := by
  simp only [validatePaymasterUserOp, bind_ok, revertIf_ok, require_ok, exists_const, pure_ok,
    Prod.mk.injEq, not_not, not_and_or]
  constructor
  · rintro ⟨hentry, ⟨target, sel, param⟩, hparse, rfl, hmethod, vaultId, hresolve, creator, hcreator,
      hne, counted, hlimits, hfunds, rfl, rfl⟩
    refine ⟨_, ⟨hentry, ⟨sel, param, hparse, hmethod, hresolve⟩, hcreator, hne, hlimits, rfl, ?_, rfl⟩, rfl⟩
    rcases hfunds with hvault | hcreatorFunds
    · exact Or.inl (Bool.not_eq_false _ ▸ hvault)
    · exact Or.inr (Nat.not_lt.mp hcreatorFunds)
  · rintro ⟨c, h, hcontext⟩
    obtain ⟨sel, param, hparse, hmethod, hresolve⟩ := h.resolved
    have hfunds : ¬ decide (maxCost ≤ p.vaultSponsorBalances c.vaultId) = false ∨
        ¬ p.creatorSponsorBalances c.creator < maxCost := by
      rw [← h.vaultBalance, Bool.not_eq_false]
      exact h.affords.imp id Nat.not_lt.mpr
    have hrecorded : encodeContext ⟨c.vaultId, c.creator,
        decide (maxCost ≤ p.vaultSponsorBalances c.vaultId), userOp.sender⟩ = context := by
      rw [hcontext, ← h.vaultBalance, ← h.guardian]
    exact ⟨h.entryPoint, ⟨p.spooVault, sel, param⟩, hparse, rfl, hmethod, c.vaultId, hresolve, c.creator,
      h.creator, h.exists_creator, p', h.limits, hfunds, rfl, hrecorded⟩

theorem parseCallData_ok {callData : Bytes} {target : Address} {sel param : ℕ}
    (h : parseCallData p callData = .ok (target, sel, param)) :
    (∃ value innerData, (Abi.selector callData = EXECUTE_SELECTOR ∨
        Abi.selector callData = EXECUTE_CALL_SELECTOR) ∧
      Abi.decodeCall (callData.drop 4) = some (target, value, innerData) ∧
        sel = Abi.selector innerData ∧ param = firstArgument innerData) ∨
    (¬ (Abi.selector callData = EXECUTE_SELECTOR ∨ Abi.selector callData = EXECUTE_CALL_SELECTOR) ∧
      target = p.spooVault ∧ sel = Abi.selector callData ∧ param = firstArgument callData) := by
  simp only [parseCallData, revertIf_bind] at h
  obtain ⟨_, h⟩ := h
  split at h
  · next hexecute =>
    simp only [bind_ok, revertIf_ok, require_ok, exists_const, pure_ok] at h
    obtain ⟨_, ⟨dest, value, innerData⟩, hdecode, _, heq⟩ := h
    cases heq
    exact Or.inl ⟨value, innerData, hexecute, hdecode, rfl, rfl⟩
  · next hexecute =>
    cases h
    exact Or.inr ⟨hexecute, rfl, rfl, rfl⟩

theorem firstArgument_lt (data : Bytes) : firstArgument data < 2 ^ 256 := by
  unfold firstArgument
  split
  · exact Abi.wordAt_lt _ _
  · decide

theorem parseCallData_param_lt {callData : Bytes} {target : Address} {sel param : ℕ}
    (h : parseCallData p callData = .ok (target, sel, param)) : param < 2 ^ 256 := by
  rcases parseCallData_ok h with ⟨_, innerData, _, _, _, rfl⟩ | ⟨_, _, _, rfl⟩
  · exact firstArgument_lt innerData
  · exact firstArgument_lt callData

theorem asUint64_lt {n m : ℕ} (h : Abi.asUint64 n = some m) : m < 2 ^ 64 := by
  unfold Abi.asUint64 at h
  split at h
  · next hlt =>
    cases h
    exact hlt
  · cases h

theorem requestVaultId_lt {requestId vaultId : ℕ} (h : requestVaultId env p requestId = .ok vaultId) :
    vaultId < 2 ^ 64 := by
  unfold requestVaultId at h
  split at h
  · cases h
    exact Nat.two_pow_pos 64
  · split at h
    · cases h
      exact Nat.two_pow_pos 64
    · split at h
      · cases h
        exact Nat.two_pow_pos 64
      · split at h
        · cases h
          exact Nat.two_pow_pos 64
        · simp only [bind_ok, require_ok] at h
          obtain ⟨_, _, h⟩ := h
          exact asUint64_lt h

theorem resolveVaultId_lt {sel param vaultId : ℕ} {paymasterAndData : Bytes} (hparam : param < 2 ^ 256)
    (h : resolveVaultId env p sel param paymasterAndData = .ok vaultId) : vaultId < 2 ^ 256 := by
  unfold resolveVaultId at h
  split at h
  · cases h
    exact hparam
  · split at h
    · simp only [bind_ok] at h
      obtain ⟨found, hfound, h⟩ := h
      split at h
      · cases h
        exact Abi.wordAt_lt _ _
      · cases h
        exact (requestVaultId_lt hfound).trans (Nat.pow_lt_pow_right (by decide) (by decide))
    · cases h
      exact Nat.two_pow_pos 256

theorem Validated.vaultId_lt {userOp : UserOperation} {maxCost : ℕ} {c : Context}
    (h : Validated env p userOp maxCost p' c) : c.vaultId < 2 ^ 256 := by
  obtain ⟨sel, param, hparse, _, hresolve⟩ := h.resolved
  exact resolveVaultId_lt (parseCallData_param_lt hparse) hresolve

end ChainGuard.Evm.SpooPaymaster
