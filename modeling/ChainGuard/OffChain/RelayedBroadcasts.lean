import ChainGuard.OffChain.RelayedApprovals

/-! Revocations that the relayer service forwards. What is signed is a string that the fields are joined
into by colons: it leaves out the Stellar user, and it says neither where the vault ends nor which
integers the numbers are. -/
namespace ChainGuard.OffChain
open Methods History
set_option autoImplicit false

variable {Num : Type} [JsNumber Num] {rt : Runtime} {s s' : Relayer} {c : RelayerCall Num}
  {hist earlier : List (Transition Relayer (RelayerCall Num))} {t : Transition Relayer (RelayerCall Num)}

/-! ## Payloads -/

structure SameRevocation (payload payload' : CrossChainRevocationPayload Num) : Prop where
  vaultGID : payload.vaultGID = payload'.vaultGID
  documentId : payload.documentId.Same payload'.documentId
  targetUser : payload.targetUser = payload'.targetUser
  targetStellarUser : payload.targetStellarUser = payload'.targetStellarUser
  nonce : payload.nonce.Same payload'.nonce

/-- What a payload is passed with so that its signed string leaves nothing open against that of a signed payload. -/
structure Untouched (payload signed : CrossChainRevocationPayload Num) : Prop where
  noColon : colon ∉ payload.vaultGID
  signed_noColon : colon ∉ signed.vaultGID
  targetStellarUser : payload.targetStellarUser = signed.targetStellarUser
  documentId : payload.documentId.toBigInt = signed.documentId.toBigInt
  nonce : payload.nonce.toBigInt = signed.nonce.toBigInt

/-- The five fields of what is passed to `relayRevokeAccess`. -/
def relayedFields (payload : CrossChainRevocationPayload Num) :
    Except Thrown (JsString × ℤ × JsString × JsString × ℤ) :=
  (relayRevocationToSoroban payload).map fun r =>
    (r.vaultGid, r.documentId, r.targetEvmUser, r.targetStellarUser, r.nonce)

theorem SameRevocation.relayed {payload payload' : CrossChainRevocationPayload Num}
    (h : SameRevocation payload payload') : relayedFields payload = relayedFields payload' := by
  simp only [relayedFields, relayRevocationToSoroban, h.vaultGID, h.documentId.toBigInt, h.targetUser,
    h.targetStellarUser, h.nonce.toBigInt]
  cases payload'.documentId.toBigInt with
  | none => rfl
  | some documentId =>
    cases payload'.nonce.toBigInt with
    | none => rfl
    | some nonce => rfl

theorem revocationSigningData_eq (payload : CrossChainRevocationPayload Num) :
    revocationSigningData payload =
      js "RevokeAccess:" ++ (revocationKey payload ++ colon :: payload.nonce.string) := by
  simp [revocationSigningData, revocationKey]

/-- The signed string, once the vault is cut off, gives the other fields as they are rendered: a
rendered number has no colon. -/
theorem fields_of_signingData {payload payload' : CrossChainRevocationPayload Num}
    (h : revocationSigningData payload = revocationSigningData payload')
    (hvault : payload.vaultGID = payload'.vaultGID) :
    payload.documentId.string = payload'.documentId.string ∧ payload.targetUser = payload'.targetUser ∧
      payload.nonce.string = payload'.nonce.string := by
  rw [revocationSigningData_eq, revocationSigningData_eq] at h
  obtain ⟨hkey, hnonce⟩ := cut_last payload.nonce.string_noColon payload'.nonce.string_noColon
    (List.append_cancel_left h)
  rw [revocationKey, revocationKey, hvault] at hkey
  obtain ⟨hdocument, huser⟩ := cut_first payload.documentId.string_noColon
    payload'.documentId.string_noColon (List.cons.inj (List.append_cancel_left hkey)).2
  exact ⟨hdocument, huser, hnonce⟩

theorem Untouched.same {payload signed : CrossChainRevocationPayload Num} (h : Untouched payload signed)
    (hdata : revocationSigningData payload = revocationSigningData signed) : SameRevocation payload signed := by
  have hvault : payload.vaultGID = signed.vaultGID := by
    simp only [revocationSigningData, List.append_assoc] at hdata
    exact (cut_first h.noColon h.signed_noColon (List.append_cancel_left hdata)).1
  obtain ⟨hdocument, huser, hnonce⟩ := fields_of_signingData hdata hvault
  exact ⟨hvault, ⟨hdocument, h.documentId⟩, huser, h.targetStellarUser, ⟨hnonce, h.nonce⟩⟩

/-! ## Nonces -/

def revocationNonce (payload : CrossChainRevocationPayload Num) : ℤ := payload.nonce.toBigInt.getD 0

/-- The key and the string that a holder of the key computes an HMAC of. -/
def authenticates (rt : Runtime) (t : Transition Relayer (RelayerCall Num)) : Option (JsString × JsString) :=
  match t.label with
  | .signPayload payload secretKey => some (secretKey, approvalSigningData rt payload)
  | .signRevocationPayload payload secretKey => some (secretKey, revocationSigningData payload)
  | _ => none

/-- The key and the string of the HMAC that an accepted payload carries. -/
def authenticated (rt : Runtime) (t : Transition Relayer (RelayerCall Num)) : Option (JsString × JsString) :=
  match t.label with
  | .processMessage payload secretKey _ =>
    if (outcome rt t.pre t.label).1 = none then some (secretKey, approvalSigningData rt payload) else none
  | .processRevocationBroadcast payload secretKey =>
    if (outcome rt t.pre t.label).1 = none then some (secretKey, revocationSigningData payload) else none
  | _ => none

/-- An accepted HMAC is one that a holder of the key computed before. -/
def Unforgeable (rt : Runtime) (hist : List (Transition Relayer (RelayerCall Num))) : Prop :=
  ∀ t earlier, t :: earlier <:+ hist → ∀ m, authenticated rt t = some m →
    ∃ t' ∈ earlier, authenticates rt t' = some m

end ChainGuard.OffChain
