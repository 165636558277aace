import ChainGuard.Evm.Sponsorship
import ChainGuard.Evm.PendingRequests

/-! The vault that an operation is charged to. The paymaster recovers it from the calldata and from two
getters of the vault contract; nothing in the operation ties its sender to that vault, and an approval
of a request that does not exist is charged to whatever vault `paymasterAndData` names. -/
namespace ChainGuard.Evm.SpooPaymaster
open Guarded History
set_option autoImplicit false

variable {L : Type} {chain : Chain} {nft : ERC721 L} {s s' : State L}
  {hist : List (Transition (State L) Evm.Invocation)}

/-! ## The vault contract as the paymaster reads it -/

def statusIndex : RequestStatus → ℕ
  | .PENDING => 0
  | .APPROVED => 1
  | .REJECTED => 2
  | .EXPIRED => 3

def levelIndex : AccessLevel → ℕ
  | .READ => 0
  | .READ_WRITE => 1
  | .ADMIN => 2

/-- The getter `accessRequests(uint256)`, which leaves the array of approvals out. -/
def encodedRequest (request : AccessRequest) : Bytes :=
  Abi.encode [.word request.requestId, .word request.documentId, .word request.requester.toNat,
    .word (statusIndex request.status), .word request.expiresAt, .word request.createdAt]

/-- The getter `documents(uint256)` -/
def encodedDocument (document : Document) : Bytes :=
  Abi.encode [.word document.id, .word document.vaultId, .bytes document.encryptedMetadata,
    .bytes document.ipfsHash, .word document.uploadedBy.toNat, .word document.uploadedAt,
    .word (levelIndex document.requiredAccess)]

def vaultView (s : State L) : VaultView where
  getVaultCreator := fun vaultId =>
    if (s.governance.vaults vaultId).id = 0 then none else some (s.governance.vaults vaultId).creator
  accessRequests := fun requestId => some (encodedRequest (s.requests.accessRequests requestId))
  documents := fun documentId => some (encodedDocument (s.documents.documents documentId))

theorem encodedRequest_documentId (request : AccessRequest) :
    Abi.wordAt (encodedRequest request) 32 = request.documentId % 2 ^ 256 :=
  Abi.wordAt_encode [.word request.requestId] _ request.documentId

theorem encodedDocument_vaultId (document : Document) :
    Abi.wordAt (encodedDocument document) 32 = document.vaultId % 2 ^ 256 :=
  Abi.wordAt_encode [.word document.id] _ document.vaultId

theorem le_encodedRequest (request : AccessRequest) : 64 ≤ (encodedRequest request).length :=
  le_trans (by simp) (Abi.le_encode_length _)

theorem le_encodedDocument (document : Document) : 64 ≤ (encodedDocument document).length :=
  le_trans (by simp) (Abi.le_encode_length _)

/-! ## What an operation calls -/

/-- The sponsored methods, with the argument that names the vault. -/
inductive VaultCall
  | acceptGuardianInvite (vaultId : ℕ)
  | approveAccess (requestId : ℕ)

/-- The data calls the vault's method with this argument. -/
inductive Calls : Bytes → VaultCall → Prop
  | acceptGuardianInvite {vaultId : ℕ} (rest : Bytes) : vaultId < 2 ^ 256 →
      Calls (bytesBE 4 ACCEPT_INVITE_SELECTOR ++ word vaultId ++ rest) (.acceptGuardianInvite vaultId)
  | approveAccess {requestId : ℕ} (rest : Bytes) : requestId < 2 ^ 256 →
      Calls (bytesBE 4 APPROVE_ACCESS_SELECTOR ++ word requestId ++ rest) (.approveAccess requestId)
  | approveAccessEncrypted {requestId : ℕ} (rest : Bytes) : requestId < 2 ^ 256 →
      Calls (bytesBE 4 APPROVE_ACCESS_ENCRYPTED_SELECTOR ++ word requestId ++ rest)
        (.approveAccess requestId)

/-- The calldata of an account is such a call, or has the account execute one on the vault. -/
inductive Performs (vault : Address) (callData : Bytes) (call : VaultCall) : Prop
  | direct : Calls callData call → Performs vault callData call
  | executed (value : ℕ) (innerData : Bytes) :
      (Abi.selector callData = EXECUTE_SELECTOR ∨ Abi.selector callData = EXECUTE_CALL_SELECTOR) →
      Abi.decodeCall (callData.drop 4) = some (vault, value, innerData) →
      Calls innerData call → Performs vault callData call

/-- The vault that the call concerns: the one it names, or that of the document of an existing request. -/
def concerned (s : State L) : VaultCall → Option ℕ
  | .acceptGuardianInvite vaultId => some vaultId
  | .approveAccess requestId =>
    if (s.requests.accessRequests requestId).requestId = 0 then none else some (requestVault s requestId)

def Related (s : State L) (timestamp : ℕ) (account : Address) (vaultId : ℕ) : Prop :=
  (s.governance.vaults vaultId).id ≠ 0 ∧
    (s.governance.isGuardian vaultId account = true ∨
      (s.governance.guardianInvites account vaultId).guardian ≠ 0 ∧
      (s.governance.guardianInvites account vaultId).accepted = false ∧
      timestamp < (s.governance.guardianInvites account vaultId).expiresAt)

/-- The context records the vault that the operation concerns and its creator, and the sender is related
to that vault. -/
structure ChargesRight (s : State L) (timestamp : ℕ) (vault : Address) (userOp : UserOperation)
    (c : Context) : Prop where
  concerned : ∃ call, Performs vault userOp.callData call ∧ concerned s call = some c.vaultId
  creator : c.creator = (s.governance.vaults c.vaultId).creator
  related : Related s timestamp userOp.sender c.vaultId

/-- The operation is a call on the behalf of a vault that its sender is related to. -/
def RightfulCall (s : State L) (timestamp : ℕ) (vault : Address) (userOp : UserOperation) : Prop :=
  ∃ call vaultId, Performs vault userOp.callData call ∧ concerned s call = some vaultId ∧
    Related s timestamp userOp.sender vaultId

instance (s : State L) (timestamp : ℕ) (account : Address) (vaultId : ℕ) :
    Decidable (Related s timestamp account vaultId) :=
  inferInstanceAs (Decidable (_ ∧ (_ ∨ _ ∧ _ ∧ _)))

/-! ## Parsing finds the call -/

variable {env : CallEnv} {p p' : Storage}

def VaultCall.Parsed (call : VaultCall) (sel param : ℕ) : Prop :=
  match call with
  | .acceptGuardianInvite vaultId => sel = ACCEPT_INVITE_SELECTOR ∧ param = vaultId
  | .approveAccess requestId =>
    (sel = APPROVE_ACCESS_SELECTOR ∨ sel = APPROVE_ACCESS_ENCRYPTED_SELECTOR) ∧ param = requestId

theorem firstArgument_call {arg : ℕ} (sel : ℕ) (rest : Bytes) (hsel : sel < 256 ^ 4) (harg : arg < 2 ^ 256) :
    Abi.selector (bytesBE 4 sel ++ word arg ++ rest) = sel ∧
      firstArgument (bytesBE 4 sel ++ word arg ++ rest) = arg := by
  obtain ⟨hlen, hselector, hargument⟩ := (Abi.call_iff hsel harg).mp ⟨rest, rfl⟩
  refine ⟨hselector, ?_⟩
  rw [firstArgument, if_pos hlen, hargument]

theorem Calls.parsed {data : Bytes} {call : VaultCall} (h : Calls data call) :
    call.Parsed (Abi.selector data) (firstArgument data) := by
  cases h with
  | acceptGuardianInvite rest harg => exact firstArgument_call ACCEPT_INVITE_SELECTOR rest (by decide) harg
  | approveAccess rest harg =>
    obtain ⟨hsel, hparam⟩ := firstArgument_call APPROVE_ACCESS_SELECTOR rest (by decide) harg
    exact ⟨Or.inl hsel, hparam⟩
  | approveAccessEncrypted rest harg =>
    obtain ⟨hsel, hparam⟩ := firstArgument_call APPROVE_ACCESS_ENCRYPTED_SELECTOR rest (by decide) harg
    exact ⟨Or.inr hsel, hparam⟩

theorem VaultCall.Parsed.not_execute {call : VaultCall} {sel param : ℕ} (h : call.Parsed sel param) :
    ¬ (sel = EXECUTE_SELECTOR ∨ sel = EXECUTE_CALL_SELECTOR) := by
  cases call with
  | acceptGuardianInvite vaultId =>
    obtain ⟨rfl, _⟩ := h
    decide
  | approveAccess requestId =>
    obtain ⟨rfl | rfl, _⟩ := h
    · decide
    · decide

theorem Performs.parsed {callData : Bytes} {call : VaultCall} {sel param : ℕ} {target : Address}
    (h : Performs p.spooVault callData call)
    (hparse : parseCallData p callData = .ok (target, sel, param)) : call.Parsed sel param := by
  have hcases := parseCallData_ok hparse
  cases h with
  | direct hcalls =>
    have hparsed := hcalls.parsed
    rcases hcases with ⟨_, _, hexecute, _⟩ | ⟨_, _, rfl, rfl⟩
    · exact absurd hexecute hparsed.not_execute
    · exact hparsed
  | executed value innerData hexecute hdecode hcalls =>
    rcases hcases with ⟨_, _, _, hdecode', rfl, rfl⟩ | ⟨hplain, _⟩
    · rw [hdecode] at hdecode'
      cases hdecode'
      exact hcalls.parsed
    · exact absurd hexecute hplain

/-! ## Resolving finds the vault -/

/-- What the getter of a document relies on. -/
structure DocumentsReadable (d : Documents) : Prop where
  unused : d.documents 0 = {}
  vaultId : ∀ documentId, (d.documents documentId).vaultId < 2 ^ 64

theorem documentsReadable (h : VaultRun chain nft hist s) : DocumentsReadable s.documents := by
  refine h.invariant (I := fun s => DocumentsReadable s.documents) ?_ ?_
  · rintro s ⟨deployer, rfl⟩
    exact ⟨rfl, fun _ => Nat.two_pow_pos 64⟩
  · intro s i s' hreadable hstep
    cases hstep.effect with
    | addDocument _ hadd =>
      obtain ⟨_, document, _, hvault, hadded⟩ := addDocument_stored hadd
      refine ⟨?_, fun d => ?_⟩
      · dsimp only
        rw [hadded, Function.update_of_ne (Nat.succ_ne_zero _).symm]
        exact hreadable.unused
      · dsimp only
        rw [hadded]
        by_cases hd : d = s.documents.documentIdCounter + 1
        · rw [hd, Function.update_self, hvault]
          exact Nat.mod_lt _ (Nat.two_pow_pos 64)
        · rw [Function.update_of_ne hd]
          exact hreadable.vaultId d
    | documents hexec =>
      have hsame := (execDocuments_documents hexec).1
      refine ⟨?_, fun d => ?_⟩
      · exact (congrFun hsame 0).trans hreadable.unused
      · exact (congrArg Document.vaultId (congrFun hsame d)).trans_lt (hreadable.vaultId d)
    | _ => exact hreadable

theorem requestVaultId_view (hview : env.vaultAt p.spooVault = vaultView s) {requestId : ℕ}
    (hfit : (s.requests.accessRequests requestId).documentId < 2 ^ 256) (hreadable : DocumentsReadable s.documents) :
    requestVaultId env p requestId =
      if (s.requests.accessRequests requestId).documentId = 0 then pure 0
      else
        require (Abi.asUint64 (Abi.wordAt (encodedDocument
          (s.documents.documents (s.requests.accessRequests requestId).documentId)) 0)) .Undecodable >>= fun _ =>
            require (Abi.asUint64 (requestVault s requestId)) .Undecodable := by
  have hdocument : Abi.wordAt (encodedRequest (s.requests.accessRequests requestId)) 32 =
      (s.requests.accessRequests requestId).documentId := by
    rw [encodedRequest_documentId, Nat.mod_eq_of_lt hfit]
  have hvault : Abi.wordAt (encodedDocument
      (s.documents.documents (s.requests.accessRequests requestId).documentId)) 32 =
      requestVault s requestId := by
    have hlt := hreadable.vaultId (s.requests.accessRequests requestId).documentId
    have hword : (2 : ℕ) ^ 64 < 2 ^ 256 := Nat.pow_lt_pow_right (by decide) (by decide)
    rw [encodedDocument_vaultId, Nat.mod_eq_of_lt (hlt.trans hword)]
    rfl
  rw [requestVaultId, hview]
  simp only [vaultView, hdocument, not_lt.mpr (le_encodedRequest _), false_or,
    if_neg (not_lt.mpr (le_encodedDocument _)), hvault]

theorem requestVaultId_eq (hview : env.vaultAt p.spooVault = vaultView s) {requestId vaultId : ℕ}
    (hfit : (s.requests.accessRequests requestId).documentId < 2 ^ 256) (hreadable : DocumentsReadable s.documents)
    (h : requestVaultId env p requestId = .ok vaultId) : vaultId = requestVault s requestId := by
  rw [requestVaultId_view hview hfit hreadable] at h
  split at h
  · next hnone =>
    cases h
    rw [requestVault, hnone, hreadable.unused]
  · simp only [bind_ok, require_ok] at h
    obtain ⟨_, _, h⟩ := h
    unfold Abi.asUint64 at h
    split at h
    · cases h
      rfl
    · cases h

theorem Related.vaultId_ne {timestamp : ℕ} {account : Address} {vaultId : ℕ} (h : VaultRun chain nft hist s)
    (hrelated : Related s timestamp account vaultId) : vaultId ≠ 0 := by
  rintro rfl
  have hempty := (rosterOk h).uncreated 0 (Or.inl rfl)
  refine hrelated.1 ?_
  rw [hempty]

theorem resolveVaultId_eq (hr : VaultRun chain nft hist s)
    (hfit : s.documents.documentIdCounter < 2 ^ 256) (hview : env.vaultAt p.spooVault = vaultView s)
    {call : VaultCall} {sel param vaultId found : ℕ} {paymasterAndData : Bytes}
    (hparsed : call.Parsed sel param) (hconcerned : concerned s call = some vaultId) (hne : vaultId ≠ 0)
    (h : resolveVaultId env p sel param paymasterAndData = .ok found) : found = vaultId := by
  cases call with
  | acceptGuardianInvite invited =>
    obtain ⟨rfl, rfl⟩ := hparsed
    rw [resolveVaultId, if_pos rfl] at h
    cases h
    exact Option.some_inj.mp hconcerned
  | approveAccess requestId =>
    obtain ⟨hsel, rfl⟩ := hparsed
    have hnotAccept : sel ≠ ACCEPT_INVITE_SELECTOR := by
      rintro rfl
      revert hsel
      decide
    rw [concerned] at hconcerned
    split at hconcerned
    · cases hconcerned
    · next hexists =>
      cases hconcerned
      have hstored := documentsCounted hr _ ((requestsOk hr).document param hexists)
      rw [resolveVaultId, if_neg hnotAccept, if_pos hsel] at h
      simp only [bind_ok] at h
      obtain ⟨resolved, hresolved, h⟩ := h
      have heq := requestVaultId_eq hview (hstored.trans_lt hfit) (documentsReadable hr) hresolved
      rw [if_neg (fun hzero => hne (heq ▸ hzero.1))] at h
      cases h
      exact heq

theorem Validated.creator_eq (hview : env.vaultAt p.spooVault = vaultView s) {userOp : UserOperation}
    {maxCost : ℕ} {c : Context} (h : Validated env p userOp maxCost p' c) :
    c.creator = (s.governance.vaults c.vaultId).creator := by
  have hcreator := h.creator
  rw [hview] at hcreator
  simp only [vaultView] at hcreator
  split at hcreator
  · cases hcreator
  · exact (Option.some_inj.mp hcreator).symm

/-- In every reachable state of the vault contract, an accepted operation is charged to the right vault
exactly when it is a call for a vault that its sender is related to. -/
theorem charges_right_iff (hr : VaultRun chain nft hist s) (hfit : s.documents.documentIdCounter < 2 ^ 256)
    (hview : env.vaultAt p.spooVault = vaultView s) {userOp : UserOperation} {maxCost : ℕ} {context : Bytes}
    (h : validatePaymasterUserOp env p userOp maxCost = .ok (p', context)) :
    ∃ c, decodeContext context = some c ∧
      (ChargesRight s env.timestamp p.spooVault userOp c ↔
        RightfulCall s env.timestamp p.spooVault userOp) := by
  obtain ⟨c, hvalidated, hcontext⟩ := validatePaymasterUserOp_ok.mp h
  refine ⟨c, ?_, ?_, ?_⟩
  · rw [hcontext, decodeContext_encode hvalidated.vaultId_lt]
  · rintro ⟨⟨call, hperforms, hconcerned⟩, _, hrelated⟩
    exact ⟨call, c.vaultId, hperforms, hconcerned, hrelated⟩
  · rintro ⟨call, vaultId, hperforms, hconcerned, hrelated⟩
    obtain ⟨sel, param, hparse, _, hresolve⟩ := hvalidated.resolved
    have hparsed := hperforms.parsed hparse
    have hfound : c.vaultId = vaultId :=
      resolveVaultId_eq hr hfit hview hparsed hconcerned (hrelated.vaultId_ne hr) hresolve
    refine ⟨⟨call, hperforms, ?_⟩, hvalidated.creator_eq hview, ?_⟩
    · rw [hfound, hconcerned]
    · rw [hfound]
      exact hrelated

/-! ## Two operations -/

/-- The entry point validates at 101, against this state of the vault contract. -/
def validating (s : State L) : CallEnv :=
  { sender := 0x60, timestamp := 101, number := 50, sender_ne := by decide, timestamp_pos := by decide
    vaultAt := fun _ => vaultView s }

/-- The paymaster with 100 for vault 1. -/
def funded : Storage :=
  { entryPoint := 0x60, spooVault := 0x70, owner := 9
    vaultSponsorBalances := fun vaultId => if vaultId = 1 then 100 else 0 }

def chargedTo (s : State L) (userOp : UserOperation) : Option Context :=
  match validatePaymasterUserOp (validating s) funded userOp 100 with
  | .ok (_, context) => decodeContext context
  | .error _ => none

theorem chargedTo_some {userOp : UserOperation} {c : Context} (h : chargedTo s userOp = some c) :
    ∃ p' context, validatePaymasterUserOp (validating s) funded userOp 100 = .ok (p', context) ∧
      decodeContext context = some c := by
  unfold chargedTo at h
  split at h
  · next p' context hvalidate => exact ⟨p', context, hvalidate, h⟩
  · cases h

/-- Account 1 opens a vault and invites account 2. -/
def invitedGuardian : List Evm.Invocation := [(callBy 1 100, .createVault (ascii "vault") [] [2] 1)]

def guardianAccepts : UserOperation := { sender := 2, callData := executed 0x70 (callData ACCEPT_INVITE_SELECTOR 1) }

/-- Account 8 approves a request that does not exist, and names vault 1 after the paymaster's address. -/
def outsiderApproves : UserOperation :=
  { sender := 8, callData := executed 0x70 (callData APPROVE_ACCESS_SELECTOR 77)
    paymasterAndData := bytesBE 20 0x50 ++ word 1 }

theorem charges_right_guardian : ∃ hist s p' context c, VaultRun localChain ERC721.standard hist s ∧
    validatePaymasterUserOp (validating s) funded guardianAccepts 100 = .ok (p', context) ∧
      decodeContext context = some c ∧ ChargesRight s 101 0x70 guardianAccepts c := by
  obtain ⟨hist, s, hrun, hp⟩ := Evm.exists_run localChain ERC721.standard 1 invitedGuardian
    (fun _ s => decide (s.documents.documentIdCounter < 2 ^ 256 ∧ Related s 101 2 1 ∧
      chargedTo s guardianAccepts = some ⟨1, 1, true, 2⟩)) (by decide +kernel)
  obtain ⟨hfit, hrelated, hcharged⟩ := of_decide_eq_true hp
  obtain ⟨p', context, hvalidate, _⟩ := chargedTo_some hcharged
  have hperforms : Performs 0x70 guardianAccepts.callData (.acceptGuardianInvite 1) := by
    refine .executed 0 (callData ACCEPT_INVITE_SELECTOR 1) (Or.inl (by decide +kernel))
      (by decide +kernel) ?_
    have hcall : Calls (bytesBE 4 ACCEPT_INVITE_SELECTOR ++ word 1 ++ []) (.acceptGuardianInvite 1) :=
      .acceptGuardianInvite [] (by norm_num)
    rwa [List.append_nil] at hcall
  obtain ⟨c, hdecode, hiff⟩ := charges_right_iff hrun hfit rfl hvalidate
  exact ⟨hist, s, p', context, c, hrun, hvalidate, hdecode, hiff.mpr ⟨_, 1, hperforms, rfl, hrelated⟩⟩

theorem outsider_charges_vault : ∃ hist s p' context c, VaultRun localChain ERC721.standard hist s ∧
    validatePaymasterUserOp (validating s) funded outsiderApproves 100 = .ok (p', context) ∧
      decodeContext context = some c ∧ c.vaultId = 1 ∧ ¬ ChargesRight s 101 0x70 outsiderApproves c := by
  obtain ⟨hist, s, hrun, hp⟩ := Evm.exists_run localChain ERC721.standard 1 invitedGuardian
    (fun _ s => decide (¬ Related s 101 8 1 ∧ chargedTo s outsiderApproves = some ⟨1, 1, true, 8⟩))
    (by decide +kernel)
  obtain ⟨hunrelated, hcharged⟩ := of_decide_eq_true hp
  obtain ⟨p', context, hvalidate, hdecode⟩ := chargedTo_some hcharged
  exact ⟨hist, s, p', context, _, hrun, hvalidate, hdecode, rfl, fun hright => hunrelated hright.related⟩

end ChainGuard.Evm.SpooPaymaster
