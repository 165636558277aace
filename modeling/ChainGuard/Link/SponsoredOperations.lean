import ChainGuard.Evm.SponsoredCalls
import ChainGuard.OffChain.UserOperation

/-! The client's sponsored operations, as the paymaster reads them: the target, the function and the argument that it
parses are those that the client encoded, and they lead it to the vault. -/
namespace ChainGuard.Link
open Guarded History OffChain OffChain.UserOperation Evm Evm.SpooPaymaster
set_option autoImplicit false

variable {L : Type} {chain : Chain} {nft : ERC721 L} {s : State L}
  {hist : List (Transition (State L) Evm.Invocation)} {env : CallEnv} {p : Storage} {encoder : TextEncoder}

/-! ## The client's calls -/

/-- A string has fewer than `2 ^ 53` code units. -/
abbrev Text := { text : JsString // text.length < 2 ^ 53 }

inductive SponsoredCall
  | approveAccess (requestId : ℕ) (encryptedShare : Option Text)
  | acceptGuardianInvite (vaultId : ℕ)

/-- The id that is passed. -/
def SponsoredCall.id : SponsoredCall → ℕ
  | .approveAccess requestId _ => requestId
  | .acceptGuardianInvite vaultId => vaultId

/-- The share that is sent along. -/
def SponsoredCall.share : SponsoredCall → Option Text
  | .approveAccess _ encryptedShare => encryptedShare.filter fun share => trim share.val ≠ []
  | .acceptGuardianInvite _ => none

def SponsoredCall.fragment (call : SponsoredCall) : FunctionFragment :=
  match call with
  | .approveAccess .. => if call.share.isSome then .approveAccessEncrypted else .approveAccess
  | .acceptGuardianInvite _ => .acceptGuardianInvite

def SponsoredCall.callData (encoder : TextEncoder) : SponsoredCall → Option JsString
  | .approveAccess requestId encryptedShare =>
    buildApproveAccessCallData encoder requestId (encryptedShare.map Subtype.val)
  | .acceptGuardianInvite vaultId => buildAcceptGuardianInviteCallData encoder vaultId

def SponsoredCall.Exists (s : State L) : SponsoredCall → Prop
  | .approveAccess requestId _ => (s.requests.accessRequests requestId).requestId ≠ 0
  | .acceptGuardianInvite _ => True

def SponsoredCall.vault (s : State L) : SponsoredCall → ℕ
  | .approveAccess requestId _ => requestVault s requestId
  | .acceptGuardianInvite vaultId => vaultId

def shareValues (encoder : TextEncoder) (share : Option Text) : Option (List Abi.Value) :=
  match share with
  | none => some []
  | some share => (encoder.toUtf8Bytes share.val).map fun bytes => [.bytes bytes]

theorem encodeFunctionData_share (fragment : FunctionFragment) {id : ℕ} (hid : id ≤ MAX_SAFE_INTEGER)
    (share : Option Text) :
    encodeFunctionData encoder fragment (.number id :: share.toList.map fun text => .string text.val) =
      (shareValues encoder share).map fun values =>
        hexlify (bytesBE 4 fragment.selector ++ Abi.encode (.word id :: values)) := by
  rw [encodeFunctionData_number fragment hid]
  cases share with
  | none => rfl
  | some share =>
    rw [Option.toList_some, List.map_cons, List.map_nil, List.mapM_cons, encodeArgument, shareValues]
    cases encoder.toUtf8Bytes share.val <;> rfl

theorem callData_eq {call : SponsoredCall} (hid : call.id ≤ MAX_SAFE_INTEGER) :
    call.callData encoder = (shareValues encoder call.share).map fun values =>
      hexlify (bytesBE 4 call.fragment.selector ++ Abi.encode (.word call.id :: values)) := by
  rw [← encodeFunctionData_share _ hid]
  cases call with
  | acceptGuardianInvite vaultId => rfl
  | approveAccess requestId encryptedShare =>
    cases encryptedShare with
    | none => rfl
    | some share =>
      by_cases hblank : trim share.val = []
      · have hshare : (SponsoredCall.approveAccess requestId (some share)).share = none := by
          simp [SponsoredCall.share, hblank]
        simp [SponsoredCall.callData, buildApproveAccessCallData, SponsoredCall.fragment, SponsoredCall.id, hshare, hblank]
      · have hshare : (SponsoredCall.approveAccess requestId (some share)).share = some share := by
          simp [SponsoredCall.share, hblank]
        simp [SponsoredCall.callData, buildApproveAccessCallData, SponsoredCall.fragment, SponsoredCall.id, hshare, hblank]

theorem encode_length_lt {share : Option Text} {values : List Abi.Value} (h : shareValues encoder share = some values)
    (n : ℕ) : (Abi.encode (.word n :: values)).length < 2 ^ 60 := by
  cases share with
  | none =>
    cases h
    simp [Abi.encode, Abi.heads, Abi.Value.head, Abi.Value.tail, word_length]
  | some share =>
    obtain ⟨bytes, hbytes, rfl⟩ := Option.map_eq_some_iff.mp h
    have hlength := encoder.length_le _ _ hbytes
    have hshare := share.property
    have hpad : (32 - bytes.length % 32) % 32 < 32 := Nat.mod_lt _ (by decide)
    simp only [Abi.encode, Abi.heads, Abi.Value.head, Abi.Value.tail, List.flatMap_cons, List.flatMap_nil,
      List.length_append, List.length_replicate, List.length_nil, word_length]
    omega

/-! ## What the paymaster reads -/

theorem parseCallData_execute (vault : Address) {selector n : ℕ} (hselector : selector < 256 ^ 4) (hn : n < 2 ^ 256)
    {values : List Abi.Value} (hshort : (Abi.encode (.word n :: values)).length < 2 ^ 60) :
    parseCallData p (bytesBE 4 FunctionFragment.execute.selector ++ Abi.encode [.word vault.toNat, .word 0,
      .bytes (bytesBE 4 selector ++ Abi.encode (.word n :: values))]) = .ok (vault, selector, n) := by
  set inner := bytesBE 4 selector ++ Abi.encode (.word n :: values) with hinner
  have hinnerLength : inner.length = 4 + (Abi.encode (.word n :: values)).length := by
    rw [hinner, List.length_append, bytesBE_length]
  have hhead : Abi.selector inner = selector ∧ firstArgument inner = n := by
    obtain ⟨rest, hrest⟩ := Abi.encode_cons_word n values
    rw [hinner, hrest, ← List.append_assoc]
    exact firstArgument_call selector rest hselector hn
  have hlong : 96 ≤ (Abi.encode [.word vault.toNat, .word 0, .bytes inner]).length :=
    le_trans (by simp) (Abi.le_encode_length _)
  set callData := bytesBE 4 FunctionFragment.execute.selector ++ Abi.encode [.word vault.toNat, .word 0, .bytes inner]
    with hcallData
  have hlength : 100 ≤ callData.length := by
    rw [hcallData, List.length_append, bytesBE_length]
    omega
  have htop : Abi.selector callData = EXECUTE_SELECTOR := by
    rw [Abi.selector, hcallData, List.take_left' (bytesBE_length 4 _), natBE_bytesBE]
    rfl
  have hdecode : Abi.decodeCall (callData.drop 4) = some (vault, 0, inner) := by
    rw [hcallData, List.drop_left' (bytesBE_length 4 _)]
    exact Abi.decodeCall_encode vault (by decide) (by omega)
  have hnotShort : ¬ callData.length < 4 ∧ ¬ callData.length < 100 ∧ ¬ inner.length < 4 := by omega
  simp only [parseCallData, htop, hdecode, true_or, if_true, bind_ok, revertIf_ok, require_ok, exists_const, pure_ok]
  refine ⟨hnotShort.1, hnotShort.2.1, (vault, 0, inner), rfl, hnotShort.2.2, ?_⟩
  rw [hhead.1, hhead.2]

/-! ## What the vault contract has stored -/

/-- A stored document has a number of its type, and a vault that was created. -/
structure DocumentsStored (s : State L) : Prop where
  id_lt : ∀ d, (s.documents.documents d).id < 2 ^ 64
  vault : ∀ d, (s.documents.documents d).id ≠ 0 →
    ∃ v, 1 ≤ v ∧ v ≤ s.governance.vaultIdCounter ∧ (s.documents.documents d).vaultId = uint64 v

theorem documentsStored (h : VaultRun chain nft hist s) : DocumentsStored s := by
  refine h.relates (R := fun _ s => DocumentsStored s) ?_ ?_
  · rintro s ⟨deployer, rfl⟩
    exact ⟨fun _ => Nat.two_pow_pos 64, fun _ hstored => (hstored rfl).elim⟩
  · intro hist s i s' hr ih hstep
    have hcounted := hstep.vaults_counted
    have hkept : ∀ d : ℕ, (s.documents.documents d).id ≠ 0 →
        ∃ v, 1 ≤ v ∧ v ≤ s'.governance.vaultIdCounter ∧ (s.documents.documents d).vaultId = uint64 v := by
      intro d hstored
      obtain ⟨v, hpos, hv, hvault⟩ := ih.vault d hstored
      exact ⟨v, hpos, hv.trans hcounted, hvault⟩
    cases hstep.effect with
    | addDocument _ hadd =>
      obtain ⟨hguardian, document, hid, hvault, hdoc⟩ := addDocument_stored hadd
      obtain ⟨hpos, hv⟩ := (rosterOk hr).guardian_existing hguardian
      constructor
      · intro d
        dsimp only
        rw [hdoc]
        by_cases hd : d = s.documents.documentIdCounter + 1
        · rw [hd, Function.update_self, hid]
          exact Nat.mod_lt _ (Nat.two_pow_pos 64)
        · rw [Function.update_of_ne hd]
          exact ih.id_lt d
      · intro d
        dsimp only
        rw [hdoc]
        by_cases hd : d = s.documents.documentIdCounter + 1
        · rw [hd, Function.update_self]
          exact fun _ => ⟨_, hpos, hv, hvault⟩
        · rw [Function.update_of_ne hd]
          exact hkept d
    | documents hexec =>
      have hsame := (execDocuments_documents hexec).1
      constructor
      · intro d
        dsimp only
        rw [hsame]
        exact ih.id_lt d
      · intro d
        dsimp only
        rw [hsame]
        exact hkept d
    | _ => exact ⟨ih.id_lt, hkept⟩

theorem requestVaultId_returns (hr : VaultRun chain nft hist s) (hview : env.vaultAt p.spooVault = vaultView s)
    (hdocuments : s.documents.documentIdCounter < 2 ^ 256) {requestId : ℕ}
    (hexists : (s.requests.accessRequests requestId).requestId ≠ 0) :
    requestVaultId env p requestId = .ok (requestVault s requestId) := by
  have hstored := (requestsOk hr).document requestId hexists
  have hreadable := documentsReadable hr
  have hne : (s.requests.accessRequests requestId).documentId ≠ 0 := by
    intro hzero
    rw [hzero, hreadable.unused] at hstored
    exact hstored rfl
  have hfit := (documentsCounted hr _ hstored).trans_lt hdocuments
  have hid : Abi.wordAt (encodedDocument (s.documents.documents (s.requests.accessRequests requestId).documentId)) 0 =
      (s.documents.documents (s.requests.accessRequests requestId).documentId).id := by
    have hlt := (documentsStored hr).id_lt (s.requests.accessRequests requestId).documentId
    have hword : (2 : ℕ) ^ 64 < 2 ^ 256 := Nat.pow_lt_pow_right (by decide) (by decide)
    exact (Abi.wordAt_encode [] _ _).trans (Nat.mod_eq_of_lt (hlt.trans hword))
  have hvault : requestVault s requestId < 2 ^ 64 := hreadable.vaultId _
  rw [requestVaultId_view hview hfit hreadable, if_neg hne, hid, Abi.asUint64,
    if_pos ((documentsStored hr).id_lt _), Abi.asUint64, if_pos hvault]
  rfl

theorem resolveVaultId_returns (hr : VaultRun chain nft hist s) (hview : env.vaultAt p.spooVault = vaultView s)
    (hdocuments : s.documents.documentIdCounter < 2 ^ 256) (hvaults : s.governance.vaultIdCounter < 2 ^ 64)
    {call : SponsoredCall} (hexists : call.Exists s) (paymasterAndData : Bytes) :
    resolveVaultId env p call.fragment.selector call.id paymasterAndData = .ok (call.vault s) := by
  cases call with
  | acceptGuardianInvite vaultId => rfl
  | approveAccess requestId encryptedShare =>
    have hvault : requestVault s requestId ≠ 0 := by
      obtain ⟨v, hpos, hv, hstored⟩ := (documentsStored hr).vault _ ((requestsOk hr).document requestId hexists)
      rw [requestVault, hstored, uint64, Nat.mod_eq_of_lt (hv.trans_lt hvaults)]
      omega
    have happroves : (SponsoredCall.approveAccess requestId encryptedShare).fragment.selector = APPROVE_ACCESS_SELECTOR ∨
        (SponsoredCall.approveAccess requestId encryptedShare).fragment.selector = APPROVE_ACCESS_ENCRYPTED_SELECTOR := by
      rw [SponsoredCall.fragment]
      split
      · exact .inr rfl
      · exact .inl rfl
    have hnotAccept : (SponsoredCall.approveAccess requestId encryptedShare).fragment.selector ≠
        ACCEPT_INVITE_SELECTOR := by
      rcases happroves with happroves | happroves <;> rw [happroves] <;> decide
    rw [resolveVaultId, if_neg hnotAccept, if_pos happroves, SponsoredCall.id,
      requestVaultId_returns hr hview hdocuments hexists, ok_bind, if_neg fun hzero => hvault hzero.1]
    rfl

/-- The service builds the call data of every call whose share has an encoding. Wrapped for the account, it is parsed
to the target, the function and the id, and these are resolved to the vault. -/
theorem sponsored_call_understood (hr : VaultRun chain nft hist s) (hview : env.vaultAt p.spooVault = vaultView s)
    (hdocuments : s.documents.documentIdCounter < 2 ^ 256) (hvaults : s.governance.vaultIdCounter < 2 ^ 64)
    (vault : Address) (call : SponsoredCall) (hid : call.id ≤ MAX_SAFE_INTEGER) (hexists : call.Exists s)
    (paymasterAndData : Bytes) :
    (call.callData encoder = none → ∃ share ∈ call.share, encoder.toUtf8Bytes share.val = none) ∧
      ∀ inner, call.callData encoder = some inner → ∃ hex callData,
        buildAccountExecuteCallData encoder vault 0 inner = some hex ∧ UserOperation.getBytes hex = some callData ∧
          parseCallData p callData = .ok (vault, call.fragment.selector, call.id) ∧
          resolveVaultId env p call.fragment.selector call.id paymasterAndData = .ok (call.vault s) := by
  rw [callData_eq hid]
  constructor
  · intro hnone
    rw [Option.map_eq_none_iff] at hnone
    cases hshare : call.share with
    | none =>
      rw [hshare] at hnone
      cases hnone
    | some share =>
      rw [hshare] at hnone
      exact ⟨share, rfl, Option.map_eq_none_iff.mp hnone⟩
  · intro inner hinner
    obtain ⟨values, hvalues, rfl⟩ := Option.map_eq_some_iff.mp hinner
    refine ⟨_, _, buildAccountExecuteCallData_hexlify vault _, getBytes_hexlify _, ?_,
      resolveVaultId_returns hr hview hdocuments hvaults hexists paymasterAndData⟩
    have hselector : call.fragment.selector < 256 ^ 4 := by cases call.fragment <;> decide
    have hword : call.id < 2 ^ 256 := hid.trans_lt (by decide)
    exact parseCallData_execute vault hselector hword (encode_length_lt hvalues call.id)

def asciiEncoder : TextEncoder where
  toUtf8Bytes text :=
    if text.all fun c => decide (c < 0x80) then some (text.map fun c => UInt8.ofNat c.toNat) else none
  length_le text bytes h := by
    obtain ⟨_, hbytes⟩ := Option.ite_none_right_eq_some.mp h
    rw [← Option.some.inj hbytes, List.length_map]
    omega

def shareText : Text := ⟨js "share", by decide⟩

/-- Guardian 2 approves the request with a share. -/
theorem sponsored_call_approved : ∃ hist s inner hex callData, VaultRun localChain ERC721.standard hist s ∧
    buildApproveAccessCallData asciiEncoder 1 (some shareText.val) = some inner ∧
    buildAccountExecuteCallData asciiEncoder 0x70 0 inner = some hex ∧ UserOperation.getBytes hex = some callData ∧
    parseCallData funded callData = .ok (0x70, APPROVE_ACCESS_ENCRYPTED_SELECTOR, 1) ∧
    resolveVaultId (validating s) funded APPROVE_ACCESS_ENCRYPTED_SELECTOR 1 [] = .ok (requestVault s 1) := by
  obtain ⟨hist, s, hrun, hp⟩ := Evm.exists_run localChain ERC721.standard 1 openedRequest
    (fun _ s => decide (s.documents.documentIdCounter < 2 ^ 256 ∧ s.governance.vaultIdCounter < 2 ^ 64 ∧
      (s.requests.accessRequests 1).requestId ≠ 0)) (by decide +kernel)
  obtain ⟨hdocuments, hvaults, hexists⟩ := of_decide_eq_true hp
  obtain ⟨hunbuilt, hbuilt⟩ := @sponsored_call_understood _ _ _ s hist (validating s) funded asciiEncoder hrun
    rfl hdocuments hvaults 0x70 (.approveAccess 1 (some shareText)) (by decide) hexists []
  obtain hinner | ⟨inner, hinner⟩ := Option.eq_none_or_eq_some
    ((SponsoredCall.approveAccess 1 (some shareText)).callData asciiEncoder)
  · obtain ⟨share, hshare, hnone⟩ := hunbuilt hinner
    have hfilter : share ∈ (some shareText).filter fun share => trim share.val ≠ [] := hshare
    obtain rfl : shareText = share := Option.mem_some.mp (Option.mem_filter_iff.mp hfilter).1
    have hascii : (shareText.val.all fun c => decide (c < 0x80)) = true := by decide +kernel
    have hencoded : asciiEncoder.toUtf8Bytes shareText.val =
        some (shareText.val.map fun c => UInt8.ofNat c.toNat) := @if_pos _ _ hascii _ _ none
    rw [hencoded] at hnone
    cases hnone
  · obtain ⟨hex, callData, hhex, hcallData, hparse, hresolve⟩ := hbuilt inner hinner
    exact ⟨hist, s, inner, hex, callData, hrun, hinner, hhex, hcallData, hparse, hresolve⟩

end ChainGuard.Link
