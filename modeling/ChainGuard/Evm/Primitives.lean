import ChainGuard.Library.Guarded
import ChainGuard.Words

/-! What the contracts take from the chain they run on: addresses and narrowed words, the
block a call executes in, and the primitives whose code is not part of the repository
(keccak256, ECDSA recovery, the EIP-2537 precompile). The clock and the counters are naturals;
where the source narrows a word the model narrows it too. -/
namespace ChainGuard.Evm
set_option autoImplicit false

abbrev Address := BitVec 160

def uint40 (n : ℕ) : ℕ := n % 2 ^ 40
def uint64 (n : ℕ) : ℕ := n % 2 ^ 64
def uint96 (n : ℕ) : ℕ := n % 2 ^ 96

/-- `msg.sender` and the block of a call; nobody calls from the zero address. -/
structure Env where
  sender : Address
  timestamp : ℕ
  number : ℕ
  sender_ne : sender ≠ 0
  timestamp_pos : 0 < timestamp

instance : LawfulBEq Address := inferInstance

theorem ne_zero_of_decide {a : Address} (h : decide (a ≠ 0) = true) : a ≠ 0 := of_decide_eq_true h

theorem pos_of_decide {n : ℕ} (h : decide (0 < n) = true) : 0 < n := of_decide_eq_true h

/-- The chain's primitives and the constants of the deployment. -/
structure Chain where
  keccak256 : Bytes → Bytes32
  /-- `ECDSA.tryRecover`: the recovered signer, or an error. -/
  tryRecover : Bytes32 → Bytes → Option Address
  /-- The EIP-712 domain separator of the deployed vault. -/
  domainSeparator : Bytes32
  /-- `staticcall` to `BLS12_PAIRING`: the returned data, unless the call fails. -/
  blsPairing : Bytes → Option Bytes
  chainId : ℕ
  /-- `address(this)` -/
  self : Address

/-! ## Encodings -/

/-- `abi.encode` of static words. -/
def abiEncode (words : List ℕ) : Bytes := words.flatMap word

/-- `_hashTypedDataV4`: the EIP-712 digest under the vault's domain. -/
def hashTypedDataV4 (chain : Chain) (structHash : Bytes32) : Bytes32 :=
  chain.keccak256 ([0x19, 0x01] ++ word chain.domainSeparator.toNat ++ word structHash.toNat)

/-! ## Reverts -/

/-- The custom errors of the vault and its libraries; `Panic` is the compiler's own. -/
inductive VaultError
  | Panic
  | ReentrantCall
  | OnlyVrfCoordinator
  | VrfRequestAlreadyPending
  | VrfUnknownRequestId
  | VrfAlreadyFulfilled
  | InvalidJitterWindow
  | AtLeastOneGuardian
  | InvalidApprovalThreshold
  | VaultNotActive
  | OnlyGuardian
  | IPFSHashRequired
  | DocumentNotExist
  | AlreadyHasAccess
  | NFTRequired
  | RequestNotExist
  | RequestNotPending
  | RequestExpired
  | RequestAlreadyPending
  | AlreadyApproved
  | NoValidInvite
  | InviteExpired
  | NotOwnerOrApproved
  | ZeroAddressGuardian
  | DuplicateGuardian
  | AlreadyGuardian
  | OnlyVaultCreator
  | InvalidInactivityPeriod
  | VaultNotExist
  | ReleaseConditionLocked
  | GuardianNotExists
  | ProposalNotExist
  | InsufficientApprovalsForExecution
  | InvalidNewThreshold
  | ProposalExpired
  | CannotRemoveOnlyGuardian
  | ProposalAlreadyExecuted
  | ProposalNotQueued
  | ProposalAlreadyQueued
  | TimelockNotElapsed
  | ProposalVetoed
  | ApprovalAlreadyGiven
  | CannotSelfApproveAccess
  | ZeroAddressBeneficiary
  | BeneficiaryAlreadySet
  | InvalidNewPublicKey
  | KeyOwnershipProofFailed
  | KeyAlreadyRevoked
  | RevokedPublicKey
  | InvalidSigner
  | KeeperExpiryInPast
  | KeeperNotAuthorized
  | KeeperAuthorizationExpired
  | ReshareSessionAlreadyActive
  | ReshareSessionNotActive
  | ReshareDeadlineNotReached
  | ReshareDeadlineExceeded
  | ReshareIncomplete
  | InvalidZeroShareCommitment
  | ZeroShareAlreadySubmitted
  | InvalidShareRefreshInput
  | InvalidReshareDuration
  | DelegationInvalidOrExpired
  | InvalidVSSCommitmentUpdate
  | InvalidShareCommitment
  | InvalidBLSKeyLength
  | InvalidProofOfPossession
  | GuardianBLSKeyNotRegistered
  | ThresholdNotMetBLS
  | DuplicateGuardianBLS
  | ThresholdNotMet
  | InvalidAggregatedSignature
  | InvalidCiphertextLength
  | CiphertextDimensionMismatch
  | ERC6551AlreadyInitialized
  | ECDSAInvalidSignature
  | ERC721InvalidReceiver
  | ERC721InvalidSender
  | ERC721IncorrectOwner
  | ERC721NonexistentToken
  | ERC721InsufficientApproval
  | ERC721InvalidApprover
  | ERC721InvalidOperator
  deriving DecidableEq, Repr

/-- The outcome of a call: it reverts, or it returns. -/
abbrev Result (α : Type) := Except VaultError α

/-! The ERC-721 base contract that `SpooVault` inherits is not part of the repository: it is a
parameter. What the vault relies on is who owns a token after `_update`, that only existing
tokens are moved for somebody, and that approvals move no token. `ERC721.standard` is the
ledger the interface describes. -/
open Guarded
/-- A token ledger with storage `L`; the owner of a token that does not exist is the zero address. -/
structure ERC721 (L : Type) where
  deployed : L
  ownerOf : L → ℕ → Address
  getApproved : L → ℕ → Address
  isApprovedForAll : L → Address → Address → Bool
  /-- `_update(to, tokenId, auth)`: an `auth` other than zero has to be allowed to move the token. -/
  update : L → Address → ℕ → Address → Result L
  /-- `approve(to, tokenId)` by the given sender. -/
  approve : L → Address → Address → ℕ → Result L
  setApprovalForAll : L → Address → Address → Bool → Result L
  ownerOf_deployed : ∀ id, ownerOf deployed id = 0
  ownerOf_update : ∀ {l l' : L} {recipient auth : Address} {id : ℕ}, update l recipient id auth = .ok l' →
    ownerOf l' = Function.update (ownerOf l) id recipient
  owned_of_update : ∀ {l l' : L} {recipient auth : Address} {id : ℕ},
    update l recipient id auth = .ok l' → auth ≠ 0 → ownerOf l id ≠ 0
  ownerOf_approve : ∀ {l l' : L} {sender recipient : Address} {id : ℕ}, approve l sender recipient id = .ok l' →
    ownerOf l' = ownerOf l
  ownerOf_setApprovalForAll : ∀ {l l' : L} {sender operator : Address} {approved : Bool},
    setApprovalForAll l sender operator approved = .ok l' → ownerOf l' = ownerOf l

namespace ERC721

/-! ## The standard ledger -/

structure Ledger where
  owners : ℕ → Address
  tokenApprovals : ℕ → Address
  operatorApprovals : Address → Address → Bool

def Ledger.isAuthorized (l : Ledger) (owner spender : Address) (id : ℕ) : Bool :=
  spender != 0 && (owner == spender || l.operatorApprovals owner spender || l.tokenApprovals id == spender)

def Ledger.update (l : Ledger) (recipient : Address) (id : ℕ) (auth : Address) : Result Ledger := do
  let owner := l.owners id
  revertIf (auth ≠ 0 ∧ owner = 0) .ERC721NonexistentToken
  revertIf (auth ≠ 0 ∧ !l.isAuthorized owner auth id) .ERC721InsufficientApproval
  pure { l with
    owners := Function.update l.owners id recipient
    tokenApprovals := if owner = 0 then l.tokenApprovals else Function.update l.tokenApprovals id 0 }

def Ledger.approve (l : Ledger) (sender recipient : Address) (id : ℕ) : Result Ledger := do
  let owner := l.owners id
  revertIf (owner = 0) .ERC721NonexistentToken
  revertIf (owner ≠ sender ∧ !l.operatorApprovals owner sender) .ERC721InvalidApprover
  pure { l with tokenApprovals := Function.update l.tokenApprovals id recipient }

def Ledger.setApprovalForAll (l : Ledger) (sender operator : Address) (approved : Bool) :
    Result Ledger := do
  revertIf (operator = 0) .ERC721InvalidOperator
  pure { l with operatorApprovals := Mapping.set₂ l.operatorApprovals sender operator approved }

def standard : ERC721 Ledger where
  deployed := ⟨fun _ => 0, fun _ => 0, fun _ _ => false⟩
  ownerOf := Ledger.owners
  getApproved := Ledger.tokenApprovals
  isApprovedForAll := Ledger.operatorApprovals
  update := Ledger.update
  approve := Ledger.approve
  setApprovalForAll := Ledger.setApprovalForAll
  ownerOf_deployed := fun _ => rfl
  ownerOf_update := by
    intro l l' recipient auth id h
    simp only [Ledger.update, revertIf_bind, pure_ok] at h
    rw [← h.2.2]
  owned_of_update := by
    intro l l' recipient auth id h hauth howner
    simp only [Ledger.update, revertIf_bind, pure_ok] at h
    exact h.1 ⟨hauth, howner⟩
  ownerOf_approve := by
    intro l l' sender recipient id h
    simp only [Ledger.approve, revertIf_bind, pure_ok] at h
    rw [← h.2.2]
  ownerOf_setApprovalForAll := by
    intro l l' sender operator approved h
    simp only [Ledger.setApprovalForAll, revertIf_bind, pure_ok] at h
    rw [← h.2]

end ERC721
end ChainGuard.Evm

/-! `FHEEngine.fheAdd`: wordwise addition of two serialized ciphertexts modulo the FHE prime.
The first word is the dimension; one body word per dimension and a last word follow. -/
namespace ChainGuard.Evm.FHEEngine
open Guarded
set_option autoImplicit false

/-- 2^256 - 2^32 - 977 -/
def FHE_PRIME : ℕ := 0xFFFFFFFFFFFFFFFFFFFFFFFFFFFFFFFFFFFFFFFFFFFFFFFFFFFFFFFEFFFFFC2F

/-- The `i`-th 32-byte word of a byte string, as `mload` reads it. -/
def mload (b : Bytes) (i : ℕ) : ℕ := natBE ((b.drop (32 * i)).take 32)

/-- The summed words `1 .. n` of two ciphertexts. -/
def sumWords (ct1 ct2 : Bytes) (n : ℕ) : Bytes :=
  (List.range n).flatMap fun i => word ((mload ct1 (i + 1) + mload ct2 (i + 1)) % FHE_PRIME)

def fheAdd (ct1 ct2 : Bytes) : Result Bytes :=
  if ct1.length = 0 then .ok ct2
  else if ct2.length = 0 then .ok ct1
  else do
    revertIf (ct1.length < 96 ∨ ct2.length < 96) .InvalidCiphertextLength
    revertIf (ct1.length ≠ ct2.length) .CiphertextDimensionMismatch
    let dim := mload ct1 0
    -- `(dim + 2) * 32` is checked arithmetic
    revertIf (2 ^ 256 ≤ (dim + 2) * 32) .Panic
    revertIf (ct1.length ≠ (dim + 2) * 32) .InvalidCiphertextLength
    pure (word dim ++ sumWords ct1 ct2 (dim + 1))

end ChainGuard.Evm.FHEEngine

/-! `BLS12381` and `BLSVerifier`: the structural checks on compressed points, the pairing
precompile attempt and the hash fallback that decides when the precompile is not there. -/
namespace ChainGuard.Evm.BLS
open Guarded
set_option autoImplicit false

/-- The compression flag: bit 7 of the first byte. -/
def compressionFlag (b : Bytes) : Bool := (b.headD 0).toNat &&& 0x80 != 0

def isValidG1Compressed (g1Bytes : Bytes) : Bool := g1Bytes.length == 48 && compressionFlag g1Bytes

def isValidG2Compressed (g2Bytes : Bytes) : Bool := g2Bytes.length == 96 && compressionFlag g2Bytes

def verifyAggregated (chain : Chain) (aggregatedPubKey aggregatedSignature : Bytes)
    (messageDigest : Bytes32) : Bool :=
  if !isValidG1Compressed aggregatedPubKey && aggregatedPubKey.length != 96 then false
  else if !isValidG2Compressed aggregatedSignature && aggregatedSignature.length != 192 then false
  else
    let expectedDigest := chain.keccak256 (ascii "BLS12381_PAIRING_CHECK_V1" ++ aggregatedPubKey ++
      aggregatedSignature ++ word messageDigest.toNat)
    let validStructure := decide (48 ≤ aggregatedPubKey.length) && decide (96 ≤ aggregatedSignature.length)
    let nonTrivial := messageDigest != 0
    let fallback := validStructure && nonTrivial && expectedDigest.toNat != 0
    if aggregatedPubKey.length == 96 && aggregatedSignature.length == 192 then
      match chain.blsPairing (aggregatedPubKey ++ word messageDigest.toNat ++ aggregatedSignature) with
      | some result => if 32 ≤ result.length then natBE (result.take 32) == 1 else fallback
      | none => fallback
    else fallback

def computeApprovalDigest (chain : Chain) (requestId vaultId documentId : ℕ) (beneficiary : Address)
    (chainId : ℕ) : Bytes32 :=
  chain.keccak256 (ascii "SPOOVAULT_ACCESS_APPROVAL_V1" ++ word requestId ++ word vaultId ++
    word documentId ++ bytesBE 20 beneficiary.toNat ++ word chainId)

def verifyProofOfPossession (chain : Chain) (blsPublicKey proofOfPossession : Bytes) : Bool :=
  if !isValidG1Compressed blsPublicKey then false
  else if !isValidG2Compressed proofOfPossession then false
  else verifyAggregated chain blsPublicKey proofOfPossession
    (chain.keccak256 (ascii "BLS_POP_SPOOVAULT_V1" ++ blsPublicKey))

def verifyThresholdApproval (chain : Chain) (requestId vaultId documentId : ℕ) (beneficiary : Address)
    (chainId : ℕ) (aggregatedPublicKey aggregatedSignature : Bytes)
    (participatingGuardians requiredThreshold : ℕ) : Result Unit := do
  revertIf (participatingGuardians < requiredThreshold) .ThresholdNotMet
  let digest := computeApprovalDigest chain requestId vaultId documentId beneficiary chainId
  let isValid := verifyAggregated chain aggregatedPublicKey aggregatedSignature digest
  revertIf (!isValid) .InvalidAggregatedSignature

end ChainGuard.Evm.BLS
