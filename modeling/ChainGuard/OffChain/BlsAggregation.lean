import Mathlib
import ChainGuard.Library.FirstEntries
import ChainGuard.Library.Guarded
import ChainGuard.OffChain.Encodings

/-! Aggregation of the approval shares of guardians, with the pairing and the encodings of the two
libraries as parameters. -/
namespace ChainGuard.OffChain.BlsCrypto
open FirstEntries Guarded
set_option autoImplicit false

variable {Num G1 G2 : Type}

inductive Failure
  | error (message : JsString)
  /-- Thrown by `ethers` or by the curve library. -/
  | library
  deriving DecidableEq

/-- What is called of `ethers` and of `@noble/curves`. -/
structure Libraries (Num G1 G2 : Type) where
  getAddress : JsString → Option JsString
  solidityPacked : JsString → Num → Num → Num → JsString → Num → Option JsString
  keccak256 : Bytes → JsString
  /-- Under the tag of approvals. -/
  hashToCurve : Bytes → G2
  g1FromBytes : Bytes → Option G1
  g1ToBytes : G1 → Bytes
  g2FromBytes : Bytes → Option G2
  g2ToBytes : G2 → Bytes
  aggregateSignatures : List G2 → Option G2
  aggregatePublicKeys : List G1 → Option G1
  verify : G2 → G2 → G1 → Option Bool

/-- The fields that aggregation reads. -/
structure BLSSignatureShare (Num : Type) where
  guardianAddress : JsString
  guardianIndex : Option Num
  publicKey : JsString
  signature : JsString
  encryptedBeneficiaryShare : Option JsString
  deriving DecidableEq

/-- The arguments of a call that say what is approved. -/
structure ApprovalRequest (Num : Type) [NatCast Num] where
  requestId : Num
  vaultId : Num
  documentId : Num
  beneficiary : JsString
  chainId : Num := (31337 : ℕ)

structure BLSAggregatedApprovalPayload (Num : Type) where
  requestId : Num
  vaultId : Num
  documentId : Num
  beneficiary : JsString
  guardianAddresses : List JsString
  guardianIndices : List Num
  publicKeys : List JsString
  aggregatedPublicKey : JsString
  aggregatedSignature : JsString
  encryptedSharesForBeneficiary : List JsString
  messageDigest : JsString
  deriving DecidableEq

structure BLSThresholdVerificationResult where
  isValid : Bool
  thresholdReached : Bool
  requiredThreshold : ℕ
  participatingGuardians : ℕ
  aggregatedPublicKey : JsString
  aggregatedSignature : JsString
  error : Option JsString
  deriving DecidableEq

/-- `Uint8Array | string` -/
inductive Message
  | bytes (b : Bytes)
  | text (s : JsString)

def orThrow {α : Type} : Option α → Except Failure α
  | some a => .ok a
  | none => .error .library

theorem orThrow_ok {α : Type} {x : Option α} {a : α} : orThrow x = .ok a ↔ x = some a := by
  cases x with
  | none => exact ⟨nofun, nofun⟩
  | some b => exact ⟨fun h => congrArg some (Except.ok.inj h), fun h => congrArg Except.ok (Option.some.inj h)⟩

def bytesToHex (bytes : Bytes) : JsString := js "0x" ++ hexString bytes

def hexToBytes (hex : JsString) : Except Failure Bytes := do
  let cleanHex := if hex.take 2 = js "0x" then hex.drop 2 else hex
  revertIf (cleanHex.length % 2 ≠ 0) (.error (js "Invalid hex string length"))
  return OffChain.hexToBytes cleanHex

theorem hexToBytes_bytesToHex (b : Bytes) : hexToBytes (bytesToHex b) = .ok b := by
  have hclean : bytesToHex b = 0x30 :: 0x78 :: hexString b := rfl
  have hdigits : (if (bytesToHex b).take 2 = js "0x" then (bytesToHex b).drop 2 else bytesToHex b) = hexString b := by
    rw [hclean]
    exact if_pos rfl
  have heven : ¬ (hexString b).length % 2 ≠ 0 := by
    rw [hexString_length]
    omega
  rw [hexToBytes, hdigits, revertIf, if_neg heven]
  exact congrArg Except.ok (hexToBytes_hexString b)

section Calls
variable (L : Libraries Num G1 G2)

def messageBytes : Message → Except Failure Bytes
  | .bytes b => .ok b
  | .text s => if s.take 2 = js "0x" then hexToBytes s else .ok (stringToUint8Array s)

def signaturePoint (signatureHex : JsString) : Except Failure G2 := do
  let sigBytes ← hexToBytes signatureHex
  orThrow (L.g2FromBytes sigBytes)

def publicKeyPoint (publicKeyHex : JsString) : Except Failure G1 := do
  let pubBytes ← hexToBytes publicKeyHex
  orThrow (L.g1FromBytes pubBytes)

/-- The body of both verifications, whose `catch` answers `false`. -/
def verifies (signatureHex : JsString) (message : Message) (publicKeyHex : JsString) : Bool :=
  let attempt : Except Failure Bool := do
    let sigBytes ← hexToBytes signatureHex
    let pubBytes ← hexToBytes publicKeyHex
    let msgBytes ← messageBytes message
    let sigPoint ← orThrow (L.g2FromBytes sigBytes)
    let pubPoint ← orThrow (L.g1FromBytes pubBytes)
    orThrow (L.verify sigPoint (L.hashToCurve msgBytes) pubPoint)
  match attempt with
  | .ok isValid => isValid
  | .error _ => false

def verifyBLSSignature (signatureHex : JsString) (message : Message) (publicKeyHex : JsString) : Bool :=
  verifies L signatureHex message publicKeyHex

def verifyAggregatedBLSSignature (aggregatedSignatureHex : JsString) (message : Message)
    (aggregatedPublicKeyHex : JsString) : Bool :=
  verifies L aggregatedSignatureHex message aggregatedPublicKeyHex

/-- Several encoded points become one; a single one is answered as it is. -/
def aggregate {P : Type} (empty : JsString) (point : JsString → Except Failure P) (sum : List P → Option P)
    (toBytes : P → Bytes) : List JsString → Except Failure JsString
  | [] => .error (.error empty)
  | [hex] => .ok hex
  | hexes => do
    let points ← hexes.mapM point
    let aggPoint ← orThrow (sum points)
    return bytesToHex (toBytes aggPoint)

def aggregateBLSSignatures (signaturesHex : List JsString) : Except Failure JsString :=
  aggregate (js "Cannot aggregate empty signature list") (signaturePoint L) L.aggregateSignatures L.g2ToBytes signaturesHex

def aggregateBLSPublicKeys (publicKeysHex : List JsString) : Except Failure JsString :=
  aggregate (js "Cannot aggregate empty public key list") (publicKeyPoint L) L.aggregatePublicKeys L.g1ToBytes publicKeysHex

variable [NatCast Num]

def encodeApprovalMessage (request : ApprovalRequest Num) : Except Failure Bytes := do
  let normalizedBeneficiary ← orThrow (L.getAddress request.beneficiary)
  let encoded ← orThrow (L.solidityPacked (js "SPOOVAULT_ACCESS_APPROVAL_V1") request.requestId request.vaultId
    request.documentId normalizedBeneficiary request.chainId)
  hexToBytes encoded

def hashApprovalMessage (request : ApprovalRequest Num) : Except Failure JsString := do
  let msgBytes ← encodeApprovalMessage L request
  return L.keccak256 msgBytes

/-- The loop over the shares that fills `uniqueSharesMap`. -/
def uniqueShares (map : List (JsString × BLSSignatureShare Num)) :
    List (BLSSignatureShare Num) → Except Failure (List (JsString × BLSSignatureShare Num))
  | [] => .ok map
  | share :: rest => do
    let addr ← orThrow (L.getAddress share.guardianAddress)
    uniqueShares (if addr ∈ map.map Prod.fst then map else map ++ [(addr, share)]) rest

def validate (msgBytes : Bytes) : List (BLSSignatureShare Num) → Except Failure Unit
  | [] => .ok ()
  | share :: rest => do
    let isValid := verifyBLSSignature L share.signature (.bytes msgBytes) share.publicKey
    revertIf (isValid = false) (.error (js "Invalid BLS signature from guardian " ++ share.guardianAddress))
    validate msgBytes rest

def aggregateGuardianApprovalShares (shares : List (BLSSignatureShare Num)) (request : ApprovalRequest Num)
    (threshold : ℕ) : Except Failure (BLSAggregatedApprovalPayload Num) := do
  revertIf (shares.length < threshold) (.error (js "Insufficient guardian shares: received " ++ decimal shares.length ++
    js ", required " ++ decimal threshold))
  let uniqueSharesMap ← uniqueShares L [] shares
  let selectedShares := (uniqueSharesMap.map Prod.snd).take threshold
  let msgBytes ← encodeApprovalMessage L request
  let msgDigest ← hashApprovalMessage L request
  validate L msgBytes selectedShares
  let signatures := selectedShares.map (·.signature)
  let publicKeys := selectedShares.map (·.publicKey)
  let guardianAddresses ← selectedShares.mapM fun s => orThrow (L.getAddress s.guardianAddress)
  let guardianIndices := selectedShares.mapIdx fun idx s => s.guardianIndex.getD idx
  let encryptedSharesForBeneficiary := selectedShares.map fun s => s.encryptedBeneficiaryShare.getD []
  let aggregatedSignature ← aggregateBLSSignatures L signatures
  let aggregatedPublicKey ← aggregateBLSPublicKeys L publicKeys
  let isAggValid := verifyAggregatedBLSSignature L aggregatedSignature (.bytes msgBytes) aggregatedPublicKey
  revertIf (isAggValid = false) (.error (js "Aggregated signature verification failed"))
  let beneficiary ← orThrow (L.getAddress request.beneficiary)
  return { requestId := request.requestId, vaultId := request.vaultId, documentId := request.documentId,
           beneficiary, guardianAddresses, guardianIndices, publicKeys, aggregatedPublicKey, aggregatedSignature,
           encryptedSharesForBeneficiary, messageDigest := msgDigest }

def verifyAggregatedApproval (payload : BLSAggregatedApprovalPayload Num) (requiredThreshold : ℕ) (chainId : Num) :
    Except Failure BLSThresholdVerificationResult := do
  let participating := payload.guardianAddresses.length
  if participating < requiredThreshold then
    return { isValid := false, thresholdReached := false, requiredThreshold, participatingGuardians := participating,
             aggregatedPublicKey := payload.aggregatedPublicKey, aggregatedSignature := payload.aggregatedSignature,
             error := some (js "Insufficient guardians: " ++ decimal participating ++ js "/" ++ decimal requiredThreshold) }
  else
    let request : ApprovalRequest Num := ⟨payload.requestId, payload.vaultId, payload.documentId, payload.beneficiary, chainId⟩
    let msgBytes ← encodeApprovalMessage L request
    let isValid := verifyAggregatedBLSSignature L payload.aggregatedSignature (.bytes msgBytes) payload.aggregatedPublicKey
    return { isValid, thresholdReached := true, requiredThreshold, participatingGuardians := participating,
             aggregatedPublicKey := payload.aggregatedPublicKey, aggregatedSignature := payload.aggregatedSignature,
             error := none }

/-! ## What is asked of the shares -/

def guardian (share : BLSSignatureShare Num) : Option JsString := L.getAddress share.guardianAddress

def isValidShare (request : ApprovalRequest Num) (share : BLSSignatureShare Num) : Bool :=
  match encodeApprovalMessage L request with
  | .ok msgBytes => verifyBLSSignature L share.signature (.bytes msgBytes) share.publicKey
  | .error _ => false

def validGuardians (request : ApprovalRequest Num) (shares : List (BLSSignatureShare Num)) : Finset JsString :=
  ((shares.filter (isValidShare L request)).filterMap (guardian L)).toFinset

/-- The first shares of the first `threshold` guardians. -/
def selected (shares : List (BLSSignatureShare Num)) (threshold : ℕ) : List (BLSSignatureShare Num) :=
  (firsts (guardian L) shares).take threshold

/-- The payload lists `threshold` guardians, each with what one of its valid shares brought. -/
structure Exact (shares : List (BLSSignatureShare Num)) (request : ApprovalRequest Num) (threshold : ℕ)
    (payload : BLSAggregatedApprovalPayload Num) : Prop where
  guardians : payload.guardianAddresses.length = threshold ∧ payload.guardianAddresses.Nodup
  lengths : payload.publicKeys.length = threshold ∧ payload.encryptedSharesForBeneficiary.length = threshold
  own : ∀ (i : ℕ) (addr : JsString), payload.guardianAddresses[i]? = some addr → ∃ share ∈ shares, isValidShare L request share = true ∧
    guardian L share = some addr ∧ payload.publicKeys[i]? = some share.publicKey ∧
    payload.encryptedSharesForBeneficiary[i]? = some (share.encryptedBeneficiaryShare.getD [])
  verified : ∃ msgBytes, encodeApprovalMessage L request = .ok msgBytes ∧
    verifyAggregatedBLSSignature L payload.aggregatedSignature (.bytes msgBytes) payload.aggregatedPublicKey = true

/-- Aggregation succeeds just with enough valid shares, and its payload is exact. -/
structure CompleteAndExact (shares : List (BLSSignatureShare Num)) (request : ApprovalRequest Num) (threshold : ℕ) :
    Prop where
  complete : (∃ payload, aggregateGuardianApprovalShares L shares request threshold = .ok payload) ↔
    threshold ≤ (validGuardians L request shares).card
  exact : ∀ payload, aggregateGuardianApprovalShares L shares request threshold = .ok payload →
    Exact L shares request threshold payload

/-- Repeated guardians make up the count of the shares, and nothing else is wrong with them. -/
structure Padded (shares : List (BLSSignatureShare Num)) (request : ApprovalRequest Num) (threshold : ℕ) : Prop where
  enough : threshold ≤ shares.length
  wellFormed : ∀ share ∈ shares, (guardian L share).isSome
  repeated : (shares.map (guardian L)).toFinset.card < threshold
  valid : ∀ share ∈ firsts (guardian L) shares, isValidShare L request share = true

/-- There are enough valid shares, but an address is malformed or an invalid share comes first. -/
structure Blocked (shares : List (BLSSignatureShare Num)) (request : ApprovalRequest Num) (threshold : ℕ) : Prop where
  enough : threshold ≤ (validGuardians L request shares).card
  blocking : (∃ share ∈ shares, guardian L share = none) ∨
    ∃ share ∈ selected L shares threshold, isValidShare L request share = false

end Calls

/-! ## Verification -/

variable {L : Libraries Num G1 G2}

theorem verifies_iff {signatureHex publicKeyHex : JsString} {msgBytes : Bytes} :
    verifies L signatureHex (.bytes msgBytes) publicKeyHex = true ↔ ∃ sigPoint pubPoint,
      signaturePoint L signatureHex = .ok sigPoint ∧ publicKeyPoint L publicKeyHex = .ok pubPoint ∧
      L.verify sigPoint (L.hashToCurve msgBytes) pubPoint = some true := by
  have hattempt : ∀ attempt : Except Failure Bool,
      (match attempt with | .ok isValid => isValid | .error _ => false) = true ↔ attempt = .ok true := by
    intro attempt
    cases attempt with
    | error e => exact ⟨nofun, nofun⟩
    | ok isValid => exact ⟨fun h => congrArg Except.ok h, fun h => Except.ok.inj h⟩
  rw [verifies, hattempt]
  simp only [bind_ok, messageBytes, Except.ok.injEq, orThrow_ok, exists_eq_left', signaturePoint, publicKeyPoint]
  constructor
  · rintro ⟨sigBytes, hsig, pubBytes, hpub, sigPoint, hsigPoint, pubPoint, hpubPoint, hverify⟩
    exact ⟨sigPoint, pubPoint, ⟨sigBytes, hsig, hsigPoint⟩, ⟨pubBytes, hpub, hpubPoint⟩, hverify⟩
  · rintro ⟨sigPoint, pubPoint, ⟨sigBytes, hsig, hsigPoint⟩, ⟨pubBytes, hpub, hpubPoint⟩, hverify⟩
    exact ⟨sigBytes, hsig, pubBytes, hpub, sigPoint, hsigPoint, pubPoint, hpubPoint, hverify⟩

section Groups
variable {GT : Type} [AddCommGroup G1] [AddCommGroup G2] [AddCommGroup GT] {e : G1 →+ G2 →+ GT} {generator : G1}

/-- The operations of the curve library are those of the groups: a verification is the equation
`e(generator, S) = e(P, H(m))`, and points other than the identity survive their encoding. -/
structure BlsGroups (L : Libraries Num G1 G2) (e : G1 →+ G2 →+ GT) (generator : G1) : Prop where
  g1_bytes : ∀ P, P ≠ 0 → L.g1FromBytes (L.g1ToBytes P) = some P
  g2_bytes : ∀ S, S ≠ 0 → L.g2FromBytes (L.g2ToBytes S) = some S
  signatures_sum : ∀ points, points ≠ [] → points.sum ≠ 0 → L.aggregateSignatures points = some points.sum
  publicKeys_sum : ∀ points, points ≠ [] → points.sum ≠ 0 → L.aggregatePublicKeys points = some points.sum
  verify_sound : ∀ S H P, L.verify S H P = some true → e generator S = e P H
  verify_complete : ∀ S H P, S ≠ 0 → P ≠ 0 → e generator S = e P H → L.verify S H P = some true

/-- Neither the signatures nor the keys of the shares add up to the identity. -/
def SumsNonzero (L : Libraries Num G1 G2) (shares : List (BLSSignatureShare Num)) : Prop :=
  ∀ sigPoints pubPoints, (shares.map (·.signature)).mapM (signaturePoint L) = .ok sigPoints →
    (shares.map (·.publicKey)).mapM (publicKeyPoint L) = .ok pubPoints → sigPoints.sum ≠ 0 ∧ pubPoints.sum ≠ 0

theorem sums_pair (hgroups : BlsGroups L e generator) {shares : List (BLSSignatureShare Num)} {msgBytes : Bytes}
    (hvalid : ∀ share ∈ shares, verifyBLSSignature L share.signature (.bytes msgBytes) share.publicKey = true) :
    ∃ sigPoints pubPoints, (shares.map (·.signature)).mapM (signaturePoint L) = .ok sigPoints ∧
      (shares.map (·.publicKey)).mapM (publicKeyPoint L) = .ok pubPoints ∧ sigPoints.length = shares.length ∧
      pubPoints.length = shares.length ∧ e generator sigPoints.sum = e pubPoints.sum (L.hashToCurve msgBytes) := by
  induction shares with
  | nil => exact ⟨[], [], rfl, rfl, rfl, rfl, by simp⟩
  | cons share rest ih =>
    obtain ⟨sigPoint, pubPoint, hsig, hpub, hverify⟩ := verifies_iff.mp (hvalid share List.mem_cons_self)
    obtain ⟨sigPoints, pubPoints, hsigs, hpubs, hsigLength, hpubLength, hsum⟩ :=
      ih fun s hs => hvalid s (List.mem_cons_of_mem _ hs)
    refine ⟨sigPoint :: sigPoints, pubPoint :: pubPoints, ?_, ?_, congrArg Nat.succ hsigLength,
      congrArg Nat.succ hpubLength, ?_⟩
    · rw [List.map_cons, List.mapM_cons, hsig, hsigs]
      rfl
    · rw [List.map_cons, List.mapM_cons, hpub, hpubs]
      rfl
    · rw [List.sum_cons, List.sum_cons, map_add, map_add, AddMonoidHom.add_apply, hsum,
        hgroups.verify_sound _ _ _ hverify]

theorem verifies_toBytes (hgroups : BlsGroups L e generator) {S : G2} {P : G1} {msgBytes : Bytes} (hS : S ≠ 0)
    (hP : P ≠ 0) (hpair : e generator S = e P (L.hashToCurve msgBytes)) :
    verifies L (bytesToHex (L.g2ToBytes S)) (.bytes msgBytes) (bytesToHex (L.g1ToBytes P)) = true := by
  refine verifies_iff.mpr ⟨S, P, ?_, ?_, hgroups.verify_complete _ _ _ hS hP hpair⟩
  · rw [signaturePoint, hexToBytes_bytesToHex, ok_bind, orThrow_ok, hgroups.g2_bytes S hS]
  · rw [publicKeyPoint, hexToBytes_bytesToHex, ok_bind, orThrow_ok, hgroups.g1_bytes P hP]

theorem aggregate_verifies (hgroups : BlsGroups L e generator) {shares : List (BLSSignatureShare Num)}
    {msgBytes : Bytes} (hnonempty : shares ≠ []) (hsums : SumsNonzero L shares)
    (hvalid : ∀ share ∈ shares, verifyBLSSignature L share.signature (.bytes msgBytes) share.publicKey = true) :
    ∃ signature publicKey, aggregateBLSSignatures L (shares.map (·.signature)) = .ok signature ∧
      aggregateBLSPublicKeys L (shares.map (·.publicKey)) = .ok publicKey ∧
      verifyAggregatedBLSSignature L signature (.bytes msgBytes) publicKey = true := by
  match shares, hnonempty with
  | [share], _ => exact ⟨share.signature, share.publicKey, rfl, rfl, hvalid share List.mem_cons_self⟩
  | share :: other :: rest, _ =>
    obtain ⟨sigPoints, pubPoints, hsigs, hpubs, hsigLength, hpubLength, hpair⟩ := sums_pair hgroups hvalid
    obtain ⟨hsigSum, hpubSum⟩ := hsums sigPoints pubPoints hsigs hpubs
    have hsigNonempty : sigPoints ≠ [] := List.ne_nil_of_length_pos (by rw [hsigLength]; exact Nat.succ_pos _)
    have hpubNonempty : pubPoints ≠ [] := List.ne_nil_of_length_pos (by rw [hpubLength]; exact Nat.succ_pos _)
    refine ⟨_, _, ?_, ?_, verifies_toBytes hgroups hsigSum hpubSum hpair⟩
    · simp only [List.map_cons] at hsigs
      simp only [List.map_cons, aggregateBLSSignatures, aggregate]
      rw [hsigs, ok_bind, hgroups.signatures_sum sigPoints hsigNonempty hsigSum]
      rfl
    · simp only [List.map_cons] at hpubs
      simp only [List.map_cons, aggregateBLSPublicKeys, aggregate]
      rw [hpubs, ok_bind, hgroups.publicKeys_sum pubPoints hpubNonempty hpubSum]
      rfl

end Groups

/-! ## The two loops -/

section Loops
variable {shares : List (BLSSignatureShare Num)} {map map' : List (JsString × BLSSignatureShare Num)}

theorem uniqueShares_error (h : ∃ share ∈ shares, guardian L share = none) :
    uniqueShares L map shares = .error .library := by
  induction shares generalizing map with
  | nil =>
    obtain ⟨share, hmem, _⟩ := h
    exact absurd hmem List.not_mem_nil
  | cons share rest ih =>
    rw [uniqueShares]
    cases haddr : L.getAddress share.guardianAddress with
    | none => rfl
    | some addr =>
      obtain ⟨other, hmem, hnone⟩ := h
      rcases List.mem_cons.mp hmem with rfl | hmem
      · rw [guardian, haddr] at hnone
        cases hnone
      · exact ih ⟨other, hmem, hnone⟩

theorem uniqueShares_ok (map : List (JsString × BLSSignatureShare Num))
    (h : ∀ share ∈ shares, (guardian L share).isSome) :
    ∃ map', uniqueShares L map shares = .ok map' ∧
      map'.map (Prod.map some id) = collect (guardian L) (map.map (Prod.map some id)) shares := by
  induction shares generalizing map with
  | nil => exact ⟨map, rfl, rfl⟩
  | cons share rest ih =>
    obtain ⟨addr, haddr⟩ := Option.isSome_iff_exists.mp (h share List.mem_cons_self)
    have hkeys : guardian L share ∈ (map.map (Prod.map some id)).map Prod.fst ↔ addr ∈ map.map Prod.fst := by
      rw [haddr, List.map_map, Prod.map_fst', ← List.map_map]
      exact List.mem_map_of_injective (Option.some_injective _)
    obtain ⟨map', hmap, hcollect⟩ := ih (if addr ∈ map.map Prod.fst then map else map ++ [(addr, share)])
      fun s hs => h s (List.mem_cons_of_mem _ hs)
    refine ⟨map', ?_, ?_⟩
    · rw [uniqueShares, show L.getAddress share.guardianAddress = some addr from haddr]
      exact hmap
    · rw [hcollect, collect, collect, List.foldl_cons]
      congr 1
      by_cases hseen : addr ∈ map.map Prod.fst
      · rw [if_pos hseen, if_pos (hkeys.mpr hseen)]
      · rw [if_neg hseen, if_neg fun hmem => hseen (hkeys.mp hmem), List.map_append, haddr]
        rfl

theorem selected_eq (threshold : ℕ) (h : ∀ share ∈ shares, (guardian L share).isSome) :
    ∃ map, uniqueShares L [] shares = .ok map ∧ (map.map Prod.snd).take threshold = selected L shares threshold := by
  obtain ⟨map, hmap, hcollect⟩ := uniqueShares_ok [] h
  refine ⟨map, hmap, congrArg (List.take threshold) ?_⟩
  have hvalues := congrArg (List.map Prod.snd) hcollect
  rw [List.map_map, Prod.map_snd', Function.id_comp] at hvalues
  rw [hvalues, collect_eq]
  simp [List.map_map, Function.comp_def]

theorem validate_ok {msgBytes : Bytes} {u : Unit} : validate L msgBytes shares = .ok u ↔
    ∀ share ∈ shares, verifyBLSSignature L share.signature (.bytes msgBytes) share.publicKey = true := by
  induction shares with
  | nil => simp [validate]
  | cons share rest ih =>
    rw [validate, List.forall_mem_cons, ← ih]
    simp

theorem mapM_guardian {addresses : List JsString} :
    (shares.mapM fun s => orThrow (L.getAddress s.guardianAddress)) = .ok addresses ↔
      shares.map (guardian L) = addresses.map some := by
  induction shares generalizing addresses with
  | nil =>
    rw [List.mapM_nil, pure_ok, List.map_nil, eq_comm (a := []), eq_comm (a := []), List.map_eq_nil_iff]
  | cons share rest ih =>
    rw [List.mapM_cons]
    simp only [bind_ok, orThrow_ok, pure_ok, List.map_cons]
    constructor
    · rintro ⟨addr, haddr, others, hothers, rfl⟩
      rw [List.map_cons, guardian, haddr, ih.mp hothers]
    · intro h
      cases addresses with
      | nil => cases h
      | cons addr others =>
        obtain ⟨haddr, hothers⟩ := List.cons.inj h
        exact ⟨addr, haddr, others, ih.mpr hothers, rfl⟩

theorem mem_of_mem_selected {threshold : ℕ} {share : BLSSignatureShare Num} (h : share ∈ selected L shares threshold) :
    share ∈ shares := mem_of_mem_firsts (List.mem_of_mem_take h)

theorem selected_nodup {threshold : ℕ} : ((selected L shares threshold).map (guardian L)).Nodup := by
  rw [selected, List.map_take]
  exact (keys_nodup (guardian L) shares).sublist (List.take_sublist ..)

theorem length_selected {threshold : ℕ} :
    (selected L shares threshold).length = min threshold (shares.map (guardian L)).toFinset.card := by
  rw [selected, List.length_take, length_firsts]

theorem guardians_le_length : (shares.map (guardian L)).toFinset.card ≤ shares.length :=
  (List.toFinset_card_le _).trans_eq (List.length_map _)

end Loops

/-! ## A call -/

section Calls
variable [NatCast Num] {shares : List (BLSSignatureShare Num)} {request : ApprovalRequest Num} {threshold : ℕ}
  {payload : BLSAggregatedApprovalPayload Num}

theorem isValidShare_iff {share : BLSSignatureShare Num} : isValidShare L request share = true ↔
    ∃ msgBytes, encodeApprovalMessage L request = .ok msgBytes ∧
      verifyBLSSignature L share.signature (.bytes msgBytes) share.publicKey = true := by
  rw [isValidShare]
  cases encodeApprovalMessage L request with
  | error e => exact ⟨nofun, nofun⟩
  | ok msgBytes => exact ⟨fun h => ⟨msgBytes, rfl, h⟩, fun ⟨_, hmsg, h⟩ => by cases hmsg; exact h⟩

theorem mem_validGuardians {addr : JsString} : addr ∈ validGuardians L request shares ↔
    ∃ share ∈ shares, isValidShare L request share = true ∧ guardian L share = some addr := by
  simp only [validGuardians, List.mem_toFinset, List.mem_filterMap, List.mem_filter, and_assoc]

/-- A call that returns has made all of its checks. -/
structure Returned (L : Libraries Num G1 G2) (shares : List (BLSSignatureShare Num)) (request : ApprovalRequest Num)
    (threshold : ℕ) (payload : BLSAggregatedApprovalPayload Num) (msgBytes : Bytes) : Prop where
  enough : threshold ≤ shares.length
  wellFormed : ∀ share ∈ shares, (guardian L share).isSome
  encoded : encodeApprovalMessage L request = .ok msgBytes
  valid : ∀ share ∈ selected L shares threshold,
    verifyBLSSignature L share.signature (.bytes msgBytes) share.publicKey = true
  guardianAddresses : (selected L shares threshold).map (guardian L) = payload.guardianAddresses.map some
  signatures : aggregateBLSSignatures L ((selected L shares threshold).map (·.signature)) = .ok payload.aggregatedSignature
  publicKeys : aggregateBLSPublicKeys L ((selected L shares threshold).map (·.publicKey)) = .ok payload.aggregatedPublicKey
  verified : verifyAggregatedBLSSignature L payload.aggregatedSignature (.bytes msgBytes) payload.aggregatedPublicKey = true
  beneficiary : L.getAddress request.beneficiary = some payload.beneficiary
  copied : payload.requestId = request.requestId ∧ payload.vaultId = request.vaultId ∧
    payload.documentId = request.documentId ∧ payload.messageDigest = L.keccak256 msgBytes ∧
    payload.guardianIndices = (selected L shares threshold).mapIdx fun idx s => s.guardianIndex.getD idx
  listed : payload.publicKeys = (selected L shares threshold).map (·.publicKey) ∧
    payload.encryptedSharesForBeneficiary = (selected L shares threshold).map fun s => s.encryptedBeneficiaryShare.getD []

theorem aggregate_ok_iff : aggregateGuardianApprovalShares L shares request threshold = .ok payload ↔
    ∃ msgBytes, Returned L shares request threshold payload msgBytes := by
  by_cases hmalformed : ∃ share ∈ shares, guardian L share = none
  · have herror : ¬ ∃ msgBytes, Returned L shares request threshold payload msgBytes := by
      rintro ⟨msgBytes, h⟩
      obtain ⟨share, hmem, hnone⟩ := hmalformed
      have hsome := h.wellFormed share hmem
      rw [hnone] at hsome
      cases hsome
    refine iff_of_false ?_ herror
    rw [aggregateGuardianApprovalShares, revertIf_bind, uniqueShares_error hmalformed]
    rintro ⟨_, h⟩
    cases h
  have hwellFormed : ∀ share ∈ shares, (guardian L share).isSome := by
    intro share hmem
    rw [Option.isSome_iff_ne_none]
    exact fun hnone => hmalformed ⟨share, hmem, hnone⟩
  obtain ⟨map, hmap, hselected⟩ := selected_eq threshold hwellFormed
  rw [aggregateGuardianApprovalShares, revertIf_bind, hmap, ok_bind, hselected]
  simp only [bind_ok, revertIf_ok, pure_ok, validate_ok, mapM_guardian, hashApprovalMessage, orThrow_ok, not_lt,
    Bool.not_eq_false]
  constructor
  · rintro ⟨henough, msgBytes, hencoded, _, ⟨_, hagain, rfl⟩, _, hvalid, addresses, haddresses, sig, hsig, pk, hpk, _,
      hverified, beneficiary, hbeneficiary, rfl⟩
    rw [hencoded] at hagain
    cases hagain
    exact ⟨msgBytes, henough, hwellFormed, hencoded, hvalid, haddresses, hsig, hpk, hverified, hbeneficiary,
      ⟨rfl, rfl, rfl, rfl, rfl⟩, rfl, rfl⟩
  · rintro ⟨msgBytes, h⟩
    refine ⟨h.enough, msgBytes, h.encoded, _, ⟨msgBytes, h.encoded, rfl⟩, (), h.valid, _, h.guardianAddresses, _,
      h.signatures, _, h.publicKeys, (), h.verified, _, h.beneficiary, ?_⟩
    obtain ⟨hrequest, hvault, hdocument, hdigest, hindices⟩ := h.copied
    rw [← hrequest, ← hvault, ← hdocument, ← hdigest, ← hindices, ← h.listed.1, ← h.listed.2]

theorem Returned.exact {msgBytes : Bytes} (h : Returned L shares request threshold payload msgBytes) :
    Exact L shares request (selected L shares threshold).length payload := by
  have hlength : payload.guardianAddresses.length = (selected L shares threshold).length := by
    have hlengths := congrArg List.length h.guardianAddresses
    rw [List.length_map, List.length_map] at hlengths
    exact hlengths.symm
  refine ⟨⟨hlength, ?_⟩, ⟨by rw [h.listed.1, List.length_map], by rw [h.listed.2, List.length_map]⟩, ?_,
    msgBytes, h.encoded, h.verified⟩
  · have hnodup : ((selected L shares threshold).map (guardian L)).Nodup := selected_nodup
    rw [h.guardianAddresses] at hnodup
    exact hnodup.of_map some
  · intro i addr haddr
    have hentry : ((selected L shares threshold).map (guardian L))[i]? = some (some addr) := by
      rw [h.guardianAddresses, List.getElem?_map, haddr]
      rfl
    rw [List.getElem?_map, Option.map_eq_some_iff] at hentry
    obtain ⟨share, hshare, hguardian⟩ := hentry
    have hmem := List.mem_of_getElem? hshare
    refine ⟨share, mem_of_mem_selected hmem, isValidShare_iff.mpr ⟨msgBytes, h.encoded, h.valid share hmem⟩,
      hguardian, ?_, ?_⟩
    · rw [h.listed.1, List.getElem?_map, hshare]
      rfl
    · rw [h.listed.2, List.getElem?_map, hshare]
      rfl

theorem validGuardians_card_le : (validGuardians L request shares).card ≤ (shares.map (guardian L)).toFinset.card := by
  refine Finset.card_le_card_of_injOn some ?_ (Option.some_injective _).injOn
  intro addr haddr
  obtain ⟨share, hmem, _, hguardian⟩ := mem_validGuardians.mp haddr
  rw [Finset.mem_coe, List.mem_toFinset, ← hguardian]
  exact List.mem_map_of_mem hmem

theorem selected_le_card (hwellFormed : ∀ share ∈ shares, (guardian L share).isSome)
    (hvalid : ∀ share ∈ selected L shares threshold, isValidShare L request share = true) :
    (selected L shares threshold).length ≤ (validGuardians L request shares).card := by
  have hsubset : ((selected L shares threshold).map (guardian L)).toFinset ⊆
      (validGuardians L request shares).map ⟨some, Option.some_injective _⟩ := by
    intro key hkey
    obtain ⟨share, hmem, rfl⟩ := List.mem_map.mp (List.mem_toFinset.mp hkey)
    obtain ⟨addr, haddr⟩ := Option.isSome_iff_exists.mp (hwellFormed share (mem_of_mem_selected hmem))
    rw [haddr, Finset.mem_map]
    exact ⟨addr, mem_validGuardians.mpr ⟨share, mem_of_mem_selected hmem, hvalid share hmem, haddr⟩, rfl⟩
  have hcard := Finset.card_le_card hsubset
  rwa [List.toFinset_card_of_nodup selected_nodup, List.length_map, Finset.card_map] at hcard

section Groups
variable {GT : Type} [AddCommGroup G1] [AddCommGroup G2] [AddCommGroup GT] {e : G1 →+ G2 →+ GT} {generator : G1}

theorem succeeds_iff (request : ApprovalRequest Num) (hgroups : BlsGroups L e generator)
    (hsums : SumsNonzero L (selected L shares threshold)) (hthreshold : 1 ≤ threshold) :
    (∃ payload, aggregateGuardianApprovalShares L shares request threshold = .ok payload) ↔
      threshold ≤ shares.length ∧ (∀ share ∈ shares, (guardian L share).isSome) ∧
        ∀ share ∈ selected L shares threshold, isValidShare L request share = true := by
  simp only [aggregate_ok_iff]
  constructor
  · rintro ⟨payload, msgBytes, h⟩
    exact ⟨h.enough, h.wellFormed, fun share hmem => isValidShare_iff.mpr ⟨msgBytes, h.encoded, h.valid share hmem⟩⟩
  · rintro ⟨henough, hwellFormed, hvalid⟩
    have hnonempty : selected L shares threshold ≠ [] := by
      cases shares with
      | nil => exact absurd (hthreshold.trans henough) (Nat.not_succ_le_zero 0)
      | cons share rest =>
        obtain ⟨n, rfl⟩ := Nat.exists_eq_add_of_le' hthreshold
        exact List.cons_ne_nil _ _
    obtain ⟨first, hfirst⟩ := List.exists_mem_of_ne_nil _ hnonempty
    obtain ⟨msgBytes, hencoded, _⟩ := isValidShare_iff.mp (hvalid first hfirst)
    have hverify : ∀ share ∈ selected L shares threshold,
        verifyBLSSignature L share.signature (.bytes msgBytes) share.publicKey = true := by
      intro share hmem
      obtain ⟨msgBytes', hencoded', hverifies⟩ := isValidShare_iff.mp (hvalid share hmem)
      rw [hencoded] at hencoded'
      cases hencoded'
      exact hverifies
    obtain ⟨sig, pk, hsig, hpk, hverified⟩ := aggregate_verifies hgroups hnonempty hsums hverify
    obtain ⟨beneficiary, hbeneficiary⟩ : ∃ b, L.getAddress request.beneficiary = some b := by
      rw [encodeApprovalMessage, bind_ok] at hencoded
      obtain ⟨b, hb, _⟩ := hencoded
      exact ⟨b, orThrow_ok.mp hb⟩
    have haddresses : (selected L shares threshold).map (guardian L) =
        ((selected L shares threshold).map fun share => (guardian L share).getD []).map some := by
      rw [List.map_map]
      refine List.map_congr_left fun share hmem => ?_
      obtain ⟨addr, haddr⟩ := Option.isSome_iff_exists.mp (hwellFormed share (mem_of_mem_selected hmem))
      rw [Function.comp_apply, haddr, Option.getD_some]
    exact ⟨{ requestId := request.requestId, vaultId := request.vaultId, documentId := request.documentId, beneficiary,
             guardianAddresses := _, guardianIndices := _, publicKeys := _, aggregatedPublicKey := pk,
             aggregatedSignature := sig, encryptedSharesForBeneficiary := _, messageDigest := L.keccak256 msgBytes },
      msgBytes, henough, hwellFormed, hencoded, hverify, haddresses, hsig, hpk, hverified, hbeneficiary,
      ⟨rfl, rfl, rfl, rfl, rfl⟩, rfl, rfl⟩

/-- Aggregation is complete and exact unless repeated guardians pad the list or a share that comes first
blocks it. -/
theorem complete_and_exact_iff (hgroups : BlsGroups L e generator)
    (hsums : SumsNonzero L (selected L shares threshold)) (hthreshold : 1 ≤ threshold) :
    CompleteAndExact L shares request threshold ↔
      ¬ Padded L shares request threshold ∧ ¬ Blocked L shares request threshold := by
  have hsucceeds := succeeds_iff request hgroups hsums hthreshold
  constructor
  · intro h
    constructor
    · intro hpadded
      have hselected : selected L shares threshold = firsts (guardian L) shares := by
        refine List.take_of_length_le ?_
        rw [length_firsts]
        exact hpadded.repeated.le
      have hsuccess := hsucceeds.mpr ⟨hpadded.enough, hpadded.wellFormed, hselected ▸ hpadded.valid⟩
      have henough := (h.complete.mp hsuccess).trans validGuardians_card_le
      exact absurd hpadded.repeated (Nat.not_lt.mpr henough)
    · intro hblocked
      obtain ⟨_, hwellFormed, hvalid⟩ := hsucceeds.mp (h.complete.mpr hblocked.enough)
      rcases hblocked.blocking with ⟨share, hmem, hnone⟩ | ⟨share, hmem, hinvalid⟩
      · have hsome := hwellFormed share hmem
        rw [hnone] at hsome
        cases hsome
      · rw [hvalid share hmem] at hinvalid
        cases hinvalid
  · rintro ⟨hpadded, hblocked⟩
    have hlength : (∃ payload, aggregateGuardianApprovalShares L shares request threshold = .ok payload) →
        (selected L shares threshold).length = threshold := by
      intro hsuccess
      obtain ⟨henough, hwellFormed, hvalid⟩ := hsucceeds.mp hsuccess
      by_contra hshort
      rw [length_selected] at hshort
      have hrepeated : (shares.map (guardian L)).toFinset.card < threshold := by omega
      refine hpadded ⟨henough, hwellFormed, hrepeated, fun share hmem => hvalid share ?_⟩
      rwa [selected, List.take_of_length_le ((length_firsts _ _).trans_le hrepeated.le)]
    constructor
    · constructor
      · intro hsuccess
        obtain ⟨_, hwellFormed, hvalid⟩ := hsucceeds.mp hsuccess
        exact (hlength hsuccess).symm.trans_le (selected_le_card hwellFormed hvalid)
      · intro henough
        refine hsucceeds.mpr ⟨(henough.trans validGuardians_card_le).trans guardians_le_length, ?_, ?_⟩
        · intro share hmem
          rw [Option.isSome_iff_ne_none]
          exact fun hnone => hblocked ⟨henough, .inl ⟨share, hmem, hnone⟩⟩
        · intro share hmem
          by_contra hinvalid
          exact hblocked ⟨henough, .inr ⟨share, hmem, by simpa using hinvalid⟩⟩
    · intro payload hok
      obtain ⟨msgBytes, hreturned⟩ := aggregate_ok_iff.mp hok
      have hexact := hreturned.exact
      rwa [hlength ⟨payload, hok⟩] at hexact

end Groups

theorem verifyAggregatedApproval_of_ok (hnormal : ∀ a b, L.getAddress a = some b → L.getAddress b = some b)
    (h : aggregateGuardianApprovalShares L shares request threshold = .ok payload) :
    (verifyAggregatedApproval L payload threshold request.chainId).map (·.isValid) =
      .ok (decide (threshold ≤ (shares.map (guardian L)).toFinset.card)) := by
  obtain ⟨msgBytes, hreturned⟩ := aggregate_ok_iff.mp h
  have hlength : payload.guardianAddresses.length = min threshold (shares.map (guardian L)).toFinset.card := by
    rw [hreturned.exact.guardians.1, length_selected]
  rw [verifyAggregatedApproval]
  by_cases hshort : payload.guardianAddresses.length < threshold
  · have hpadded : ¬ threshold ≤ (shares.map (guardian L)).toFinset.card := by omega
    rw [if_pos hshort, decide_eq_false hpadded]
    rfl
  · have henough : threshold ≤ (shares.map (guardian L)).toFinset.card := by omega
    have hencoded : encodeApprovalMessage L ⟨payload.requestId, payload.vaultId, payload.documentId, payload.beneficiary,
        request.chainId⟩ = .ok msgBytes := by
      obtain ⟨hrequest, hvault, hdocument, _⟩ := hreturned.copied
      rw [← hreturned.encoded, encodeApprovalMessage, encodeApprovalMessage, hreturned.beneficiary,
        hnormal _ _ hreturned.beneficiary, hrequest, hvault, hdocument]
    rw [if_neg hshort, decide_eq_true henough]
    dsimp only
    rw [hencoded, ok_bind]
    exact congrArg Except.ok hreturned.verified

end Calls

/-! ## Points modulo 7, paired by their product -/

def modular : Libraries ℕ (ZMod 7) (ZMod 7) where
  getAddress address := if address.length = 2 then some address else none
  solidityPacked _ requestId _ _ _ _ := some (bytesToHex [UInt8.ofNat requestId])
  keccak256 := bytesToHex
  hashToCurve msgBytes := (natBE msgBytes : ZMod 7)
  g1FromBytes bytes := if bytes.length = 1 ∧ natBE bytes < 7 then some (natBE bytes : ZMod 7) else none
  g1ToBytes P := [UInt8.ofNat P.val]
  g2FromBytes bytes := if bytes.length = 1 ∧ natBE bytes < 7 then some (natBE bytes : ZMod 7) else none
  g2ToBytes S := [UInt8.ofNat S.val]
  aggregateSignatures points := if points.sum = 0 then none else some points.sum
  aggregatePublicKeys points := if points.sum = 0 then none else some points.sum
  verify S H P := if S = 0 ∨ P = 0 then none else some (decide (S = P * H))

theorem modular_groups : BlsGroups modular (AddMonoidHom.mul (R := ZMod 7)) 1 where
  g1_bytes := by decide +kernel
  g2_bytes := by decide +kernel
  signatures_sum points _ hsum := if_neg hsum
  publicKeys_sum points _ hsum := if_neg hsum
  verify_sound S H P h := by
    revert S H P
    decide +kernel
  verify_complete S H P hS hP h := by
    revert S H P
    decide +kernel

/-- The share of a guardian with the secret `key` for request 2. -/
def modularShare (address : String) (key : ℕ) : BLSSignatureShare ℕ where
  guardianAddress := js address
  guardianIndex := none
  publicKey := bytesToHex [UInt8.ofNat key]
  signature := bytesToHex [UInt8.ofNat (2 * key)]
  encryptedBeneficiaryShare := none

def modularRequest : ApprovalRequest ℕ where
  requestId := 2
  vaultId := 0
  documentId := 0
  beneficiary := js "be"

theorem modular_sums {shares : List (BLSSignatureShare ℕ)} (sigPoints pubPoints : List (ZMod 7))
    (hsigs : (shares.map (·.signature)).mapM (signaturePoint modular) = .ok sigPoints)
    (hpubs : (shares.map (·.publicKey)).mapM (publicKeyPoint modular) = .ok pubPoints)
    (hsums : sigPoints.sum ≠ 0 ∧ pubPoints.sum ≠ 0) : SumsNonzero modular shares := by
  intro sigPoints' pubPoints' hsigs' hpubs'
  rw [hsigs] at hsigs'
  rw [hpubs] at hpubs'
  cases hsigs'
  cases hpubs'
  exact hsums

theorem complete_and_exact_pair :
    CompleteAndExact modular [modularShare "ga" 1, modularShare "gb" 3] modularRequest 2 := by
  refine (complete_and_exact_iff modular_groups ?_ (by decide)).mpr ⟨fun h => ?_, fun h => ?_⟩
  · exact modular_sums [2, 6] [1, 3] (by decide +kernel) (by decide +kernel) (by decide)
  · exact absurd h.repeated (by decide +kernel)
  · have hnone : ¬ ((∃ share ∈ [modularShare "ga" 1, modularShare "gb" 3], guardian modular share = none) ∨
        ∃ share ∈ selected modular [modularShare "ga" 1, modularShare "gb" 3] 2,
          isValidShare modular modularRequest share = false) := by decide +kernel
    exact hnone h.blocking

theorem verifyAggregatedApproval_pair : ∃ payload,
    aggregateGuardianApprovalShares modular [modularShare "ga" 1, modularShare "gb" 3] modularRequest 2 = .ok payload ∧
    (verifyAggregatedApproval modular payload 2 modularRequest.chainId).map (·.isValid) = .ok true := by
  have hnormal : ∀ a b, modular.getAddress a = some b → modular.getAddress b = some b := by
    intro a b h
    obtain ⟨hlength, h⟩ := Option.ite_none_right_eq_some.mp h
    cases h
    exact if_pos hlength
  have hsome : (aggregateGuardianApprovalShares modular [modularShare "ga" 1, modularShare "gb" 3] modularRequest
      2).toOption.isSome = true := by decide +kernel
  cases hok : aggregateGuardianApprovalShares modular [modularShare "ga" 1, modularShare "gb" 3] modularRequest 2 with
  | error e =>
    rw [hok] at hsome
    cases hsome
  | ok payload =>
    have hcard : ([modularShare "ga" 1, modularShare "gb" 3].map (guardian modular)).toFinset.card = 2 := by
      decide +kernel
    refine ⟨payload, rfl, ?_⟩
    rw [verifyAggregatedApproval_of_ok hnormal hok, hcard]
    rfl

/-- One guardian that hands in its share twice passes for two. -/
theorem repeated_guardian_passes : BlsGroups modular (AddMonoidHom.mul (R := ZMod 7)) 1 ∧
    SumsNonzero modular (selected modular [modularShare "ga" 1, modularShare "ga" 1] 2) ∧
    ¬ CompleteAndExact modular [modularShare "ga" 1, modularShare "ga" 1] modularRequest 2 := by
  refine ⟨modular_groups, ?_, fun h => ?_⟩
  · exact modular_sums [2] [1] (by decide +kernel) (by decide +kernel) (by decide)
  · have hsuccess : (aggregateGuardianApprovalShares modular [modularShare "ga" 1, modularShare "ga" 1] modularRequest
        2).toOption.isSome = true := by decide +kernel
    have hfew : ¬ 2 ≤ (validGuardians modular modularRequest
        [modularShare "ga" 1, modularShare "ga" 1]).card := by decide +kernel
    refine hfew (h.complete.mp ?_)
    cases hresult : aggregateGuardianApprovalShares modular [modularShare "ga" 1, modularShare "ga" 1] modularRequest 2 with
    | error e =>
      rw [hresult] at hsuccess
      cases hsuccess
    | ok payload => exact ⟨payload, rfl⟩

end ChainGuard.OffChain.BlsCrypto
