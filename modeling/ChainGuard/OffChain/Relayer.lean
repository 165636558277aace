import ChainGuard.Library.History
import ChainGuard.Library.Methods
import ChainGuard.OffChain.Js

/-! The cross-chain relayer service: approvals and revocations under an HMAC, and the nonces and hashes
that it remembers of those it accepted. -/
namespace ChainGuard.OffChain
open Methods History
set_option autoImplicit false

structure Runtime where
  toLowerCase : JsString → JsString
  /-- `createHmac("sha256", key).update(data).digest()` -/
  hmacSha256 : JsString → JsString → Bytes
  /-- `createHash("sha256").update(data).digest()` -/
  sha256 : JsString → Bytes

def DEFAULT_APPROVAL_MESSAGE_TTL_MS : ℕ := 5 * 60 * 1000

structure CrossChainPayload (Num : Type) where
  vaultGID : JsString
  guardian : JsString
  approvalType : Num
  timestamp : Num
  sourceChain : Option JsString := none
  destinationChain : Option JsString := none
  nonce : Option (Numeric Num) := none
  expiresAt : Option Num := none
  signature : Option JsString := none

structure CrossChainRevocationPayload (Num : Type) where
  vaultGID : JsString
  documentId : Numeric Num
  targetUser : JsString
  targetStellarUser : Option JsString := none
  nonce : Numeric Num
  signature : Option JsString := none
  recoveryId : Option Num := none

/-- `CrossChainRelayerService` -/
structure Relayer where
  processedHashes : Finset JsString := ∅
  lastApprovalNonces : JsString → Option ℤ := fun _ => none
  lastRevocationNonces : JsString → Option ℤ := fun _ => none

section Service
variable {Num : Type} [JsNumber Num] (rt : Runtime)

/-! ## Signing -/

/-- What `normalizeApprovalPayload` makes of a payload, its constant `type` apart. -/
structure NormalizedApproval (Num : Type) where
  vaultGID : JsString
  guardian : JsString
  approvalType : Num
  sourceChain : JsString
  destinationChain : JsString
  nonce : JsString
  timestamp : Num
  expiresAt : Num
  deriving DecidableEq

def CrossChainPayload.expiry (payload : CrossChainPayload Num) : Num :=
  payload.expiresAt.getD
    (JsNumber.add payload.timestamp (JsNumber.ofNat DEFAULT_APPROVAL_MESSAGE_TTL_MS))

def normalizeApprovalPayload (payload : CrossChainPayload Num) : NormalizedApproval Num where
  vaultGID := rt.toLowerCase payload.vaultGID
  guardian := rt.toLowerCase payload.guardian
  approvalType := payload.approvalType
  sourceChain := payload.sourceChain.getD (js "avalanche")
  destinationChain := payload.destinationChain.getD (js "stellar")
  nonce := (payload.nonce.getD (.number (JsNumber.ofNat 0))).string
  timestamp := payload.timestamp
  expiresAt := payload.expiry

/-- `JSON.stringify` of a normalized payload. -/
def approvalSigningData (payload : CrossChainPayload Num) : JsString :=
  let normalized := normalizeApprovalPayload rt payload
  jsonObject
    [(js "type", jsonString (js "SpooVaultCrossChainApproval")),
      (js "vaultGID", jsonString normalized.vaultGID),
      (js "guardian", jsonString normalized.guardian),
      (js "approvalType", jsonNumber normalized.approvalType),
      (js "sourceChain", jsonString normalized.sourceChain),
      (js "destinationChain", jsonString normalized.destinationChain),
      (js "nonce", jsonString normalized.nonce),
      (js "timestamp", jsonNumber normalized.timestamp),
      (js "expiresAt", jsonNumber normalized.expiresAt)]

def revocationSigningData (payload : CrossChainRevocationPayload Num) : JsString :=
  js "RevokeAccess:" ++ payload.vaultGID ++ colon :: (payload.documentId.string ++ colon ::
    (payload.targetUser ++ colon :: payload.nonce.string))

def signaturesMatch (actual : Option JsString) (expected : JsString) : Bool :=
  match actual with
  | none => false
  | some [] => false
  | some actual => bufferFromHex actual == bufferFromHex expected

/-- The signature of `data`, as both signers render it. -/
def hmacHex (secretKey data : JsString) : JsString := hexString (rt.hmacSha256 secretKey data)

def signPayload (payload : CrossChainPayload Num) (secretKey : JsString) :
    Except Thrown (CrossChainPayload Num) := do
  let signature := hmacHex rt secretKey (approvalSigningData rt payload)
  let normalized := normalizeApprovalPayload rt payload
  let nonce ← match payload.nonce with
    | none => pure none
    | some _ =>
      match bigintOfString normalized.nonce with
      | none => throw .syntaxError
      | some n => pure (some (.bigint n))
  return { payload with
    sourceChain := some normalized.sourceChain
    destinationChain := some normalized.destinationChain
    nonce
    expiresAt := some normalized.expiresAt
    signature := some signature }

def signRevocationPayload (payload : CrossChainRevocationPayload Num) (secretKey : JsString) :
    CrossChainRevocationPayload Num :=
  { payload with
    signature := some (hmacHex rt secretKey (revocationSigningData payload))
    recoveryId := some (JsNumber.ofNat 0) }

/-! ## Processing -/

structure ProcessedMessage where
  success : Bool
  messageHash : JsString

structure ProcessedRevocation (Num : Type) where
  success : Bool
  messageHash : JsString
  broadcastRevocation : CrossChainRevocationPayload Num

def signatureString (signature : Option JsString) : JsString := signature.getD (js "undefined")

/-- The `trackingKey` of an approval. -/
def approvalKey (payload : CrossChainPayload Num) : JsString :=
  joinColon [rt.toLowerCase payload.vaultGID, rt.toLowerCase payload.guardian,
    JsNumber.string payload.approvalType, payload.sourceChain.getD (js "avalanche"),
    payload.destinationChain.getD (js "stellar")]

/-- `if (payload.nonce !== undefined) { … }` of `processMessage`. -/
def trackApprovalNonce (payload : CrossChainPayload Num) : Method Relayer Thrown Unit :=
  match payload.nonce with
  | none => pure ()
  | some nonce => do
    let currentNonce ← orThrow nonce.toBigInt .rangeError
    let lastNonce := ((← get).lastApprovalNonces (approvalKey rt payload)).getD 0
    throwIf (currentNonce ≤ lastNonce) (.error "Replay attack detected: Stale or replayed approval nonce")
    modify fun s => { s with
      lastApprovalNonces := Function.update s.lastApprovalNonces (approvalKey rt payload) currentNonce }

def processMessage (payload : CrossChainPayload Num) (secretKey : JsString) (now : Num) :
    Method Relayer Thrown ProcessedMessage := do
  let rawData := approvalSigningData rt payload
  let expectedSig := hmacHex rt secretKey rawData
  throwIf (signaturesMatch payload.signature expectedSig = false) (.error "Invalid payload signature")
  throwIf (JsNumber.lt payload.expiry now = true) (.error "Cross-chain approval message expired")
  let messageHash := hexString (rt.sha256 (rawData ++ colon :: signatureString payload.signature))
  throwIf (messageHash ∈ (← get).processedHashes)
    (.error "Replay attack detected: Message already processed")
  trackApprovalNonce rt payload
  modify fun s => { s with processedHashes := insert messageHash s.processedHashes }
  return { success := true, messageHash }

/-- The `trackingKey` of a revocation. -/
def revocationKey (payload : CrossChainRevocationPayload Num) : JsString :=
  payload.vaultGID ++ colon :: (payload.documentId.string ++ colon :: payload.targetUser)

def processRevocationBroadcast (payload : CrossChainRevocationPayload Num) (secretKey : JsString) :
    Method Relayer Thrown (ProcessedRevocation Num) := do
  let rawData := revocationSigningData payload
  let expectedSig := hmacHex rt secretKey rawData
  throwIf (signaturesMatch payload.signature expectedSig = false)
    (.error "Invalid revocation payload signature")
  let currentNonce ← orThrow payload.nonce.toBigInt .rangeError
  let lastNonce := ((← get).lastRevocationNonces (revocationKey payload)).getD 0
  throwIf (currentNonce ≤ lastNonce) (.error "Replay attack detected: Stale or replayed revocation nonce")
  let messageHash := hexString (rt.sha256 (rawData ++ colon :: signatureString payload.signature))
  modify fun s => { s with processedHashes := insert messageHash s.processedHashes }
  modify fun s => { s with
    lastRevocationNonces := Function.update s.lastRevocationNonces (revocationKey payload) currentNonce }
  return { success := true, messageHash, broadcastRevocation := payload }

/-- What `relayRevocationToSoroban` passes to `relayRevokeAccess`. -/
structure RelayRevokeAccess (Num : Type) where
  vaultGid : JsString
  documentId : ℤ
  targetEvmUser : JsString
  targetStellarUser : JsString
  nonce : ℤ
  signature : JsString
  recoveryId : Num

def relayRevocationToSoroban (payload : CrossChainRevocationPayload Num) :
    Except Thrown (RelayRevokeAccess Num) := do
  let bigint (x : Numeric Num) : Except Thrown ℤ :=
    match x.toBigInt with
    | none => throw .rangeError
    | some n => pure n
  return {
    vaultGid := payload.vaultGID
    documentId := ← bigint payload.documentId
    targetEvmUser := payload.targetUser
    targetStellarUser := payload.targetStellarUser.getD payload.targetUser
    nonce := ← bigint payload.nonce
    signature := payload.signature.getD (js "0x00")
    recoveryId := payload.recoveryId.getD (JsNumber.ofNat 0) }

/-! ## Runs -/

/-- The calls of the service's methods, with the holder's signing among them. -/
inductive RelayerCall (Num : Type)
  | signPayload (payload : CrossChainPayload Num) (secretKey : JsString)
  | signRevocationPayload (payload : CrossChainRevocationPayload Num) (secretKey : JsString)
  | processMessage (payload : CrossChainPayload Num) (secretKey : JsString) (now : Num)
  | processRevocationBroadcast (payload : CrossChainRevocationPayload Num) (secretKey : JsString)

def outcome (s : Relayer) : RelayerCall Num → Option Thrown × Relayer
  | .signPayload payload secretKey =>
    match signPayload rt payload secretKey with
    | .ok _ => (none, s)
    | .error e => (some e, s)
  | .signRevocationPayload _ _ => (none, s)
  | .processMessage payload secretKey now =>
    match call (processMessage rt payload secretKey now) s with
    | (.ok _, s') => (none, s')
    | (.error e, s') => (some e, s')
  | .processRevocationBroadcast payload secretKey =>
    match call (processRevocationBroadcast rt payload secretKey) s with
    | (.ok _, s') => (none, s')
    | (.error e, s') => (some e, s')

def RelayerStep (s : Relayer) (c : RelayerCall Num) (s' : Relayer) : Prop := (outcome rt s c).2 = s'

/-- Every call of a new service, the ones that throw included. -/
abbrev RelayerRun : List (Transition Relayer (RelayerCall Num)) → Relayer → Prop :=
  Run (· = {}) (RelayerStep rt)

/-- The history of a new service on which the calls were made, newest first. -/
def historyOf : List (RelayerCall Num) → List (Transition Relayer (RelayerCall Num)) × Relayer
  | [] => ([], {})
  | c :: calls =>
    let before := historyOf calls
    let s' := (outcome rt before.2 c).2
    (⟨before.2, c, s'⟩ :: before.1, s')

theorem relayerRun_historyOf (calls : List (RelayerCall Num)) :
    RelayerRun rt (historyOf rt calls).1 (historyOf rt calls).2 := by
  induction calls with
  | nil => exact .start rfl
  | cons c calls ih => exact .next ih rfl

/-! ## What the methods do -/

/-- What `processMessage` requires and writes when it returns. -/
structure Approves (payload : CrossChainPayload Num) (s s' : Relayer) : Prop where
  nonce : ∀ x, payload.nonce = some x → ∃ n, x.toBigInt = some n ∧
    (s.lastApprovalNonces (approvalKey rt payload)).getD 0 < n ∧
    s'.lastApprovalNonces = Function.update s.lastApprovalNonces (approvalKey rt payload) n
  noNonce : payload.nonce = none → s'.lastApprovalNonces = s.lastApprovalNonces
  lastRevocationNonces : s'.lastRevocationNonces = s.lastRevocationNonces

/-- What `processRevocationBroadcast` requires and writes when it returns. -/
structure Revokes (payload : CrossChainRevocationPayload Num) (secretKey : JsString) (s s' : Relayer) :
    Prop where
  signed : signaturesMatch payload.signature
    (hmacHex rt secretKey (revocationSigningData payload)) = true
  nonce : ∃ n, payload.nonce.toBigInt = some n ∧
    (s.lastRevocationNonces (revocationKey payload)).getD 0 < n ∧
    s'.lastRevocationNonces = Function.update s.lastRevocationNonces (revocationKey payload) n
  lastApprovalNonces : s'.lastApprovalNonces = s.lastApprovalNonces

variable {rt} {s s' : Relayer} {secretKey : JsString} {e : Thrown}

theorem trackApprovalNonce_returns {payload : CrossChainPayload Num} {u : Unit}
    (h : call (trackApprovalNonce rt payload) s = (.ok u, s')) : Approves rt payload s s' := by
  unfold trackApprovalNonce at h
  split at h
  · next hnone =>
    rw [call_pure, Prod.mk.injEq] at h
    obtain ⟨_, rfl⟩ := h
    exact ⟨fun x hx => by simp [hnone] at hx, fun _ => rfl, rfl⟩
  · next nonce hnonce =>
    simp only [bind_returns, orThrow_returns, call_get, throwIf_returns, call_modify, Prod.mk.injEq,
      Except.ok.injEq, not_le] at h
    obtain ⟨n, _, ⟨hn, rfl⟩, _, _, ⟨rfl, rfl⟩, _, _, ⟨hlt, rfl⟩, _, rfl⟩ := h
    refine ⟨?_, fun hnone => by simp [hnonce] at hnone, rfl⟩
    intro x hx
    obtain rfl : nonce = x := Option.some.inj (hnonce.symm.trans hx)
    exact ⟨n, hn, hlt, rfl⟩

theorem trackApprovalNonce_throws {payload : CrossChainPayload Num}
    (h : call (trackApprovalNonce rt payload) s = (.error e, s')) : s' = s := by
  unfold trackApprovalNonce at h
  split at h
  · simp at h
  · simp only [bind_throws, orThrow_throws, orThrow_returns, call_get, throwIf_throws, throwIf_returns,
      call_modify, Prod.mk.injEq, Except.ok.injEq, reduceCtorEq, false_and, and_false, exists_false,
      or_false, false_or] at h
    obtain ⟨_, _, rfl⟩ | ⟨n, _, ⟨_, rfl⟩, _, _, ⟨rfl, rfl⟩, _, _, rfl⟩ := h
    · rfl
    · rfl

theorem processMessage_returns {payload : CrossChainPayload Num} {now : Num} {r : ProcessedMessage}
    (h : call (processMessage rt payload secretKey now) s = (.ok r, s')) : Approves rt payload s s' := by
  simp only [processMessage, bind_returns, throwIf_returns, call_get, call_modify, call_pure,
    Prod.mk.injEq, Except.ok.injEq] at h
  obtain ⟨_, _, ⟨_, rfl⟩, _, _, ⟨_, rfl⟩, _, _, ⟨rfl, rfl⟩, _, _, ⟨_, rfl⟩, _, mid, htrack, _, _,
    ⟨_, rfl⟩, _, rfl⟩ := h
  have htracked := trackApprovalNonce_returns htrack
  exact ⟨htracked.nonce, htracked.noNonce, htracked.lastRevocationNonces⟩

theorem processMessage_throws {payload : CrossChainPayload Num} {now : Num}
    (h : call (processMessage rt payload secretKey now) s = (.error e, s')) : s' = s := by
  simp only [processMessage, bind_throws, throwIf_throws, throwIf_returns, call_get, call_modify, call_pure,
    Prod.mk.injEq, Except.ok.injEq, reduceCtorEq, false_and, and_false, exists_false, or_false,
    false_or] at h
  obtain ⟨_, _, rfl⟩ | ⟨_, _, ⟨_, rfl⟩, h⟩ := h
  · rfl
  obtain ⟨_, _, rfl⟩ | ⟨_, _, ⟨_, rfl⟩, h⟩ := h
  · rfl
  obtain ⟨_, _, ⟨rfl, rfl⟩, h⟩ := h
  obtain ⟨_, _, rfl⟩ | ⟨_, _, ⟨_, rfl⟩, h⟩ := h
  · rfl
  exact trackApprovalNonce_throws h

theorem processRevocationBroadcast_returns {payload : CrossChainRevocationPayload Num}
    {r : ProcessedRevocation Num}
    (h : call (processRevocationBroadcast rt payload secretKey) s = (.ok r, s')) :
    Revokes rt payload secretKey s s' := by
  simp only [processRevocationBroadcast, bind_returns, throwIf_returns, orThrow_returns, call_get,
    call_modify, call_pure, Prod.mk.injEq, Except.ok.injEq, not_le, Bool.not_eq_false] at h
  obtain ⟨_, _, ⟨hsigned, rfl⟩, n, _, ⟨hn, rfl⟩, _, _, ⟨rfl, rfl⟩, _, _, ⟨hlt, rfl⟩, _, _, ⟨_, rfl⟩, _, _,
    ⟨_, rfl⟩, _, rfl⟩ := h
  exact ⟨hsigned, ⟨n, hn, hlt, rfl⟩, rfl⟩

theorem processRevocationBroadcast_throws {payload : CrossChainRevocationPayload Num}
    (h : call (processRevocationBroadcast rt payload secretKey) s = (.error e, s')) : s' = s := by
  simp only [processRevocationBroadcast, bind_throws, throwIf_throws, throwIf_returns, orThrow_returns,
    orThrow_throws, call_get, call_modify, call_pure, Prod.mk.injEq, Except.ok.injEq, reduceCtorEq,
    false_and, and_false, exists_false, or_false, false_or] at h
  obtain ⟨_, _, rfl⟩ | ⟨_, _, ⟨_, rfl⟩, h⟩ := h
  · rfl
  obtain ⟨_, _, rfl⟩ | ⟨_, _, ⟨_, rfl⟩, _, _, ⟨rfl, rfl⟩, _, _, rfl⟩ := h
  · rfl
  · rfl

end Service

/-! ## A concrete runtime -/

/-- An HMAC with one value, and a hash that is its input. -/
def localRuntime : Runtime where
  toLowerCase := List.map fun c => if 65 ≤ c ∧ c ≤ 90 then c + 32 else c
  hmacSha256 _ _ := [0xab]
  sha256 := List.map UInt16.toUInt8

end ChainGuard.OffChain
