import ChainGuard.Library.Guarded
import ChainGuard.Words

/-! What the Soroban contract takes from its host: addresses, authorization, the ledger, the
crypto functions and the failure of an invocation. Counters and clock are naturals: a sum
that overflows its word aborts the invocation, and no ledger gets there. -/
namespace ChainGuard.Soroban
open Guarded
set_option autoImplicit false

/-- An account, by its Ed25519 key, or a contract. -/
inductive Address
  | account (key : Bytes32)
  | contract (id : Bytes32)
  deriving DecidableEq, Repr

/-- `BytesN<64>` -/
abbrev Signature := BitVec 512

abbrev EvmAddress := BitVec 160

/-! ## Failure -/

inductive UpgradeError
  | NotInitialized
  | UnauthorizedAdmin
  | AlreadyApproved
  deriving DecidableEq, Repr

inductive RelayerError
  | VaultNotFound
  | VaultNotActive
  | OnlyCreator
  | ExpiryInPast
  | NoKeeperAuthorized
  | KeeperMismatch
  | KeeperAuthorizationExpired
  deriving DecidableEq, Repr

inductive ThresholdError
  | InvalidSignature
  | ThresholdNotMet
  | DuplicateSigner
  | PayloadExpired
  | NonceAlreadyUsed
  | LengthMismatch
  | InvalidThreshold
  deriving DecidableEq, Repr

inductive ZkVerifierError
  | InvalidProof
  | NullifierAlreadySpent
  | InvalidInputCount
  | InvalidCurvePoint
  deriving DecidableEq, Repr

/-- Why an invocation fails: a missing authorization, a host function, a panic with its text, or
one of the contract's typed errors. -/
inductive Failure
  | auth
  | host
  | panic (message : String)
  | upgrade (error : UpgradeError)
  | relayer (error : RelayerError)
  | threshold (error : ThresholdError)
  | zk (error : ZkVerifierError)
  deriving DecidableEq, Repr

abbrev Result (α : Type) := Except Failure α

/-- `assert!(c, message)` -/
def assert (c : Prop) [Decidable c] (message : String) : Result Unit := revertIf (¬ c) (.panic message)

/-- `.expect(message)` -/
def expect {α : Type} (o : Option α) (message : String) : Result α :=
  match o with
  | some a => pure a
  | none => .error (.panic message)

/-- `.ok_or(error)?` -/
def okOr {α : Type} (o : Option α) (error : RelayerError) : Result α :=
  match o with
  | some a => pure a
  | none => .error (.relayer error)

@[simp] theorem assert_ok (c : Prop) [Decidable c] (message : String) (u : Unit) :
    assert c message = .ok u ↔ c := by
  rw [assert, revertIf_ok, not_not]

@[simp] theorem expect_ok {α : Type} (o : Option α) (message : String) (a : α) :
    expect o message = .ok a ↔ o = some a := by
  cases o <;> simp [expect]

@[simp] theorem okOr_ok {α : Type} (o : Option α) (error : RelayerError) (a : α) :
    okOr o error = .ok a ↔ o = some a := by
  cases o <;> simp [okOr]

/-! ## The host -/

/-- The arguments of `verify_access_proof`, points and scalars as their bytes. -/
structure ProofArgs where
  a : Bytes
  b : Bytes
  c : Bytes
  vaultRootCommitment : Bytes32
  nullifierHash : Bytes32
  documentId : Bytes32
  alpha : Bytes
  beta : Bytes
  gamma : Bytes
  delta : Bytes
  ic : List Bytes

structure Host where
  keccak256 : Bytes → Bytes32
  ed25519Verify : Bytes32 → Bytes → Signature → Bool
  /-- The recovered SEC1 key, unless the host traps. -/
  secp256k1Recover : Bytes32 → Signature → ℕ → Option Bytes
  toXdr : Address → Bytes
  /-- The decoding of the points and the pairing check of `zk_verifier::verify_proof`. -/
  groth16 : ProofArgs → Except ZkVerifierError Unit

/-- One invocation: who authorized it, the ledger it is in, and what it draws and calls there. -/
structure Env where
  authorized : List Address
  timestamp : ℕ
  sequence : ℕ
  /-- `env.prng().gen()` -/
  prng : ℕ
  /-- Whether `record_grant` of an access registry returns. -/
  recordGrant : Address → ℕ → Address → Bool
  /-- Whether a Wasm is on the ledger. -/
  wasmUploaded : Bytes32 → Bool

/-- `require_auth` -/
def requireAuth (env : Env) (a : Address) : Result Unit := revertIf (a ∉ env.authorized) .auth

@[simp] theorem requireAuth_ok (env : Env) (a : Address) (u : Unit) :
    requireAuth env a = .ok u ↔ a ∈ env.authorized := by
  rw [requireAuth, revertIf_ok, not_not]

/-- `u32::saturating_add` -/
def saturatingAdd32 (a b : ℕ) : ℕ := min (a + b) (2 ^ 32 - 1)

/-- `u64::saturating_add` -/
def saturatingAdd64 (a b : ℕ) : ℕ := min (a + b) (2 ^ 64 - 1)

/-- Bytes `12..32` of a hash. -/
def evmAddressOf (hash : Bytes32) : EvmAddress := hash.setWidth 160

/-- The EIP-191 digest of a hash. -/
def ethSignedMessage (host : Host) (hash : Bytes32) : Bytes32 :=
  host.keccak256 ([0x19] ++ ascii "Ethereum Signed Message:\n32" ++ word hash.toNat)

/-! `threshold_sig`: a batch of Ed25519 signatures over one payload, with its nonce and expiry. -/

def THRESHOLD_PREFIX : Bytes := ascii "SpooVaultThresholdSig"

def thresholdPayload (message : Bytes) (nonce expirationLedger : ℕ) : Bytes :=
  THRESHOLD_PREFIX ++ bytesBE 8 nonce ++ bytesBE 4 expirationLedger ++ message

/-- `verify_threshold_signatures_internal`: the used nonces after it. -/
def verifyThresholdSignaturesInternal (host : Host) (env : Env) (usedNonce : ℕ → Bool)
    (message : Bytes) (signatures : List Signature) (publicKeys : List Bytes32)
    (threshold nonce expirationLedger : ℕ) : Result (ℕ → Bool) := do
  revertIf (threshold = 0 ∨ signatures.length < threshold ∨ signatures.length ≠ publicKeys.length)
    (.threshold .InvalidSignature)
  revertIf (expirationLedger < env.sequence) (.threshold .InvalidSignature)
  revertIf (usedNonce nonce = true) (.threshold .InvalidSignature)
  revertIf (¬ publicKeys.Nodup) (.threshold .InvalidSignature)
  -- the host traps on an invalid signature
  revertIf (∃ signed ∈ publicKeys.zip signatures,
    host.ed25519Verify signed.1 (thresholdPayload message nonce expirationLedger) signed.2 = false) .host
  pure (Function.update usedNonce nonce true)

/-! `fhe_add`: the header of the first ciphertext, then the wordwise sums modulo the FHE prime,
computed on four 64-bit limbs. Limbs stand least significant first. -/

/-- The limbs of a 32-byte big-endian word. -/
def limbs (w : Bytes) : List ℕ := (List.range 4).map fun i => natBE ((w.drop (24 - i * 8)).take 8)

/-- q = 2^256 - 2^32 - 977 -/
def FHE_PRIME_LIMBS : List ℕ :=
  [0xFFFFFFFEFFFFFC2F, 0xFFFFFFFFFFFFFFFF, 0xFFFFFFFFFFFFFFFF, 0xFFFFFFFFFFFFFFFF]

def addLimbs : ℕ → List ℕ → List ℕ → List ℕ × ℕ
  | carry, a :: as, b :: bs =>
    let val := a + b + carry
    let rest := addLimbs (val / 2 ^ 64) as bs
    (val % 2 ^ 64 :: rest.1, rest.2)
  | carry, _, _ => ([], carry)

/-- Comparison from the most significant limb on, which stands first here; equal limbs count. -/
def geLimbs : List ℕ → List ℕ → Bool
  | a :: as, b :: bs => if b < a then true else if a < b then false else geLimbs as bs
  | _, _ => true

def subLimbs : ℕ → List ℕ → List ℕ → List ℕ
  | borrow, a :: as, b :: bs =>
    if a < b + borrow then (a + 2 ^ 64 - b - borrow) :: subLimbs 1 as bs
    else (a - b - borrow) :: subLimbs 0 as bs
  | _, _, _ => []

/-- Lists of one length end together. -/
theorem both_nil {α β : Type} {as : List α} {bs : List β} (h : as.length = bs.length)
    (hends : ∀ a as' b bs', as = a :: as' → bs = b :: bs' → False) : as = [] ∧ bs = [] := by
  cases as with
  | nil => exact ⟨rfl, List.length_eq_zero_iff.mp h.symm⟩
  | cons a as =>
    cases bs with
    | nil => cases h
    | cons b bs => exact (hends a as b bs rfl rfl).elim

def addModQ256 (w1 w2 : Bytes) : Bytes :=
  let sum := addLimbs 0 (limbs w1) (limbs w2)
  let geQ := 0 < sum.2 ∨ geLimbs sum.1.reverse FHE_PRIME_LIMBS.reverse = true
  let reduced := if geQ then subLimbs 0 sum.1 FHE_PRIME_LIMBS else sum.1
  reduced.reverse.flatMap (bytesBE 8)

/-- `ct.slice(i * 32..(i + 1) * 32)` -/
def wordAt (ct : Bytes) (i : ℕ) : Bytes := (ct.drop (i * 32)).take 32

def fheAdd (ct1 ct2 : Bytes) : Result Bytes :=
  if ct1 = [] then pure ct2
  else if ct2 = [] then pure ct1
  else do
    assert (96 ≤ ct1.length ∧ 96 ≤ ct2.length) "Invalid ciphertext length"
    assert (ct1.length = ct2.length) "Ciphertext dimension mismatch"
    let wordCount := ct1.length / 32
    pure (ct1.take 32 ++ (List.range (wordCount - 1)).flatMap fun i =>
      addModQ256 (wordAt ct1 (i + 1)) (wordAt ct2 (i + 1)))

end ChainGuard.Soroban

/-! `BLSVerifier`: the structural checks on keys and signatures. The digests that the source
computes and drops are left out; a hash function has no effect. -/
namespace ChainGuard.Soroban.BLSVerifier
set_option autoImplicit false

/-- Bit 7 of the first byte, set in a compressed point. -/
def compressed (b : Bytes) : Bool := b.headD 0 &&& 0x80 != 0

def isValidG1 (publicKey : Bytes) : Bool := publicKey.length == 48 && compressed publicKey

def isValidG2 (signature : Bytes) : Bool := signature.length == 96 && compressed signature

def verifyProofOfPossession (publicKey proofOfPossession : Bytes) : Bool :=
  isValidG1 publicKey && isValidG2 proofOfPossession

/-- `verify_threshold_signature`; the request, vault, document and requester are not looked at. -/
def verifyThresholdSignature (_requestId _vaultId _documentId : ℕ) (_requester : Address)
    (aggregatedPublicKey aggregatedSignature : Bytes)
    (participatingGuardians requiredThreshold : ℕ) : Bool :=
  if participatingGuardians < requiredThreshold then false
  else if !isValidG1 aggregatedPublicKey then false
  else if !isValidG2 aggregatedSignature then false
  else true

end ChainGuard.Soroban.BLSVerifier
