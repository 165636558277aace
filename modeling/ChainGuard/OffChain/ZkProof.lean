import ChainGuard.OffChain.ShareStrings

/-! The proof service of the client: its hash, the public signals, the input of the prover and the
arguments of the two verifiers. -/
namespace ChainGuard.OffChain.ZkProof
set_option autoImplicit false

structure ZkProofInput where
  beneficiaryPrivateKey : ℤ
  secretShare : ℤ
  blindingFactor : ℤ
  documentId : ℤ

structure ZkPublicSignals where
  vaultRootCommitment : ℤ
  nullifierHash : ℤ
  documentId : ℤ

/-- The coordinates of `A`, `B` and `C`. -/
structure Groth16Proof where
  a : ℤ × ℤ
  b : (ℤ × ℤ) × (ℤ × ℤ)
  c : ℤ × ℤ

structure FullProof where
  proof : Groth16Proof
  publicSignals : ZkPublicSignals

def BN254_PRIME : ℤ := 21888242871839275222246405745257275088569664541156301506178335204

/-! ## Hashes -/

def domainTags : List (JsString × ℤ) :=
  [(js "spooVaultShareCommitment", 0x73706f6f5661756c745f5368617265436f6d6d69746d656e74),
    (js "spooVaultNullifier", 0x73706f6f5661756c745f4e756c6c6966696572)]

def hash2 (a b : ℤ) (domain : JsString) : ℤ :=
  let tag := (domainTags.lookup domain).getD 0
  let state := (tag * a + b).tmod BN254_PRIME
  (List.range 5).foldl (fun state _ => (state * state + a + b).tmod BN254_PRIME) state

def computeCommitment (secretShare blindingFactor : ℤ) : ℤ :=
  hash2 secretShare blindingFactor (js "spooVaultShareCommitment")

def computeNullifierHash (beneficiaryPrivateKey documentId : ℤ) : ℤ :=
  hash2 beneficiaryPrivateKey documentId (js "spooVaultNullifier")

def computePublicSignals (input : ZkProofInput) : ZkPublicSignals where
  vaultRootCommitment := computeCommitment input.secretShare input.blindingFactor
  nullifierHash := computeNullifierHash input.beneficiaryPrivateKey input.documentId
  documentId := input.documentId

/-! ## The prover -/

/-- A `Record<string, string>`. -/
abbrev Assignment := List (JsString × JsString)

/-- The first argument of `snarkjs.groth16.fullProve`. -/
def proverInput (input : ZkProofInput) : Assignment :=
  let publicSignals := computePublicSignals input
  [(js "beneficiaryPrivateKey", bigintString input.beneficiaryPrivateKey),
    (js "secretShare", bigintString input.secretShare),
    (js "blindingFactor", bigintString input.blindingFactor),
    (js "vaultRootCommitment", bigintString publicSignals.vaultRootCommitment),
    (js "nullifierHash", bigintString publicSignals.nullifierHash),
    (js "documentId", bigintString input.documentId)]

/-! The arguments of a full proof for the two verifiers: integers for the one on the EVM, bytes for that of Soroban. -/
open Secrets (toString16 padStart)
structure ContractProofArgs where
  a : ℤ × ℤ
  b : (ℤ × ℤ) × (ℤ × ℤ)
  c : ℤ × ℤ
  inputs : ℤ × ℤ × ℤ

def toContractArgs (fullProof : FullProof) : ContractProofArgs where
  a := fullProof.proof.a
  b := fullProof.proof.b
  c := fullProof.proof.c
  inputs := (fullProof.publicSignals.vaultRootCommitment, fullProof.publicSignals.nullifierHash,
    fullProof.publicSignals.documentId)

/-! ## Bytes -/

/-- A number of more than 64 digits has more bytes, and a digit left over is dropped. -/
def to32Bytes (n : ℤ) : Bytes := hexToBytes (padStart (toString16 n) (some 64))

/-- `out.set(bytes, offset)` -/
def setAt (out bytes : Bytes) (offset : ℕ) : Except Thrown Bytes :=
  if out.length < offset + bytes.length then .error .rangeError
  else .ok (out.take offset ++ bytes ++ out.drop (offset + bytes.length))

def g1To64 (x y : ℤ) : Except Thrown Bytes := do
  let out ← setAt (List.replicate 64 0) (to32Bytes x) 0
  setAt out (to32Bytes y) 32

/-- The imaginary parts come first. -/
def g2To128 (x y : ℤ × ℤ) : Except Thrown Bytes := do
  let out ← setAt (List.replicate 128 0) (to32Bytes x.2) 0
  let out ← setAt out (to32Bytes x.1) 32
  let out ← setAt out (to32Bytes y.2) 64
  setAt out (to32Bytes y.1) 96

structure SorobanProofArgs where
  proofA : Bytes
  proofB : Bytes
  proofC : Bytes
  vaultRootCommitment : Bytes
  nullifierHash : Bytes
  documentId : Bytes

def toSorobanArgs (fullProof : FullProof) : Except Thrown SorobanProofArgs := do
  let proofA ← g1To64 fullProof.proof.a.1 fullProof.proof.a.2
  let proofB ← g2To128 fullProof.proof.b.1 fullProof.proof.b.2
  let proofC ← g1To64 fullProof.proof.c.1 fullProof.proof.c.2
  return {
    proofA, proofB, proofC
    vaultRootCommitment := to32Bytes fullProof.publicSignals.vaultRootCommitment
    nullifierHash := to32Bytes fullProof.publicSignals.nullifierHash
    documentId := to32Bytes fullProof.publicSignals.documentId }

/-! ## Words -/

theorem hexToBytes_digits {digits : List ℕ} (heven : digits.length % 2 = 0) (hlt : ∀ d ∈ digits, d < 16) :
    hexToBytes (digits.map hexDigit) = Vdf.bytesOfPairs digits := by
  induction digits using Vdf.bytesOfPairs.induct with
  | case1 high low rest ih =>
    have hhigh := hlt high (by simp)
    have hlow := hlt low (by simp)
    have hrest := ih (by rw [List.length_cons, List.length_cons] at heven; omega) (fun d hd => hlt d (by simp [hd]))
    rw [List.map_cons, List.map_cons, hexToBytes_cons, parseIntHex_pair hhigh hlow, toUint8_natCast, hrest,
      Vdf.bytesOfPairs]
  | case2 digits hshort =>
    rcases digits with _ | ⟨high, _ | ⟨low, rest⟩⟩
    · rfl
    · cases heven
    · exact absurd rfl (hshort high low rest)

theorem padded_length {n : ℕ} (hn : n < 2 ^ 256) : (padStart (toString16 n) (some 64)).length = 64 := by
  have hdigits : (toString16 n).length ≤ 64 := by
    show ((Vdf.hexDigits n).map hexDigit).length ≤ 64
    rw [List.length_map]
    by_cases hzero : n = 0
    · rw [hzero]
      decide
    · exact (Vdf.hexDigits_length_le_iff hzero).mpr (hn.trans_eq (by norm_num))
  rw [padStart, List.length_append, List.length_replicate, Option.getD_some]
  show 64 - _ + _ = _
  omega

/-- The number is a word. -/
def Fits (n : ℤ) : Prop := 0 ≤ n ∧ n.toNat < 2 ^ 256

theorem to32Bytes_natCast {n : ℕ} (hn : n < 2 ^ 256) : to32Bytes n = word n := by
  obtain ⟨digits, ⟨hstring, hdigit, _⟩, hvalue⟩ := Secrets.padded_hex n (some 64)
  have hlength : digits.length = 64 := by
    rw [← padded_length hn, hstring, List.length_map]
  have hbytes : (Vdf.bytesOfPairs digits).length = 32 := by
    rw [Vdf.bytesOfPairs_length, hlength]
  have hread : natBE (Vdf.bytesOfPairs digits) = n := by
    rw [natBE, Vdf.natBE_bytesOfPairs (by rw [hlength]) hdigit]
    exact hvalue
  rw [to32Bytes, hstring, hexToBytes_digits (by rw [hlength]) hdigit, word, ← hbytes, ← hread]
  exact (bytesBE_natBE _).symm

theorem to32Bytes_eq {n : ℤ} (hn : Fits n) : to32Bytes n = word n.toNat := by
  have hword := to32Bytes_natCast hn.2
  rwa [Int.toNat_of_nonneg hn.1] at hword

theorem setAt_word (done : Bytes) {n offset k left : ℕ} (hoffset : done.length = offset) (hleft : left = 32 + k) :
    setAt (done ++ List.replicate left 0) (word n) offset = .ok (done ++ word n ++ List.replicate k 0) := by
  have hfits : ¬ (done ++ List.replicate left (0 : UInt8)).length < offset + (word n).length := by
    rw [List.length_append, List.length_replicate, word_length]
    omega
  have htail : (done ++ List.replicate left (0 : UInt8)).drop (offset + (word n).length) = List.replicate k 0 := by
    rw [← hoffset, List.drop_length_add_append, List.drop_replicate, word_length, hleft, Nat.add_sub_cancel_left]
  rw [setAt, if_neg hfits, List.take_left' hoffset, htail]

theorem setAt_last (done : Bytes) {n offset : ℕ} (hoffset : done.length = offset) :
    setAt (done ++ List.replicate 32 0) (word n) offset = .ok (done ++ word n) := by
  have hset := setAt_word done (n := n) (k := 0) hoffset rfl
  rwa [List.replicate_zero, List.append_nil] at hset

theorem setAt_first {n k left : ℕ} (hleft : left = 32 + k) :
    setAt (List.replicate left 0) (word n) 0 = .ok (word n ++ List.replicate k 0) := by
  have hset := setAt_word [] (n := n) List.length_nil hleft
  rwa [List.nil_append, List.nil_append] at hset

theorem g1To64_eq {x y : ℤ} (hx : Fits x) (hy : Fits y) : g1To64 x y = .ok (word x.toNat ++ word y.toNat) := by
  have hfirst := setAt_first (n := x.toNat) (show 64 = 32 + 32 from rfl)
  rw [g1To64, to32Bytes_eq hx, to32Bytes_eq hy, hfirst, Guarded.ok_bind]
  exact setAt_last (word x.toNat) (word_length _)

theorem g2To128_eq {x y : ℤ × ℤ} (hx : Fits x.1 ∧ Fits x.2) (hy : Fits y.1 ∧ Fits y.2) :
    g2To128 x y = .ok (word x.2.toNat ++ word x.1.toNat ++ word y.2.toNat ++ word y.1.toNat) := by
  have hfirst := setAt_first (n := x.2.toNat) (show 128 = 32 + 96 from rfl)
  have hsecond := setAt_word (word x.2.toNat) (n := x.1.toNat) (k := 64) (word_length _) (show 96 = 32 + 64 from rfl)
  have hlength : (word x.2.toNat ++ word x.1.toNat).length = 64 := by
    rw [List.length_append, word_length, word_length]
  have hthird := setAt_word (word x.2.toNat ++ word x.1.toNat) (n := y.2.toNat) (k := 32) hlength
    (show 64 = 32 + 32 from rfl)
  have hlength' : (word x.2.toNat ++ word x.1.toNat ++ word y.2.toNat).length = 96 := by
    rw [List.length_append, hlength, word_length]
  have hfourth := setAt_last (word x.2.toNat ++ word x.1.toNat ++ word y.2.toNat) (n := y.1.toNat) hlength'
  rw [g2To128, to32Bytes_eq hx.1, to32Bytes_eq hx.2, to32Bytes_eq hy.1, to32Bytes_eq hy.2, hfirst, Guarded.ok_bind,
    hsecond, Guarded.ok_bind, hthird, Guarded.ok_bind]
  exact hfourth

/-! ## Proofs of words -/

def FullProof.coordinates (fullProof : FullProof) : List ℤ :=
  [fullProof.proof.a.1, fullProof.proof.a.2, fullProof.proof.b.1.1, fullProof.proof.b.1.2, fullProof.proof.b.2.1,
    fullProof.proof.b.2.2, fullProof.proof.c.1, fullProof.proof.c.2]

def FullProof.signals (fullProof : FullProof) : List ℤ :=
  [fullProof.publicSignals.vaultRootCommitment, fullProof.publicSignals.nullifierHash,
    fullProof.publicSignals.documentId]

theorem toSorobanArgs_eq {fullProof : FullProof} (hcoordinates : ∀ n ∈ fullProof.coordinates, Fits n)
    (hsignals : ∀ n ∈ fullProof.signals, Fits n) : toSorobanArgs fullProof = .ok {
      proofA := word fullProof.proof.a.1.toNat ++ word fullProof.proof.a.2.toNat
      proofB := word fullProof.proof.b.1.2.toNat ++ word fullProof.proof.b.1.1.toNat ++
        word fullProof.proof.b.2.2.toNat ++ word fullProof.proof.b.2.1.toNat
      proofC := word fullProof.proof.c.1.toNat ++ word fullProof.proof.c.2.toNat
      vaultRootCommitment := word fullProof.publicSignals.vaultRootCommitment.toNat
      nullifierHash := word fullProof.publicSignals.nullifierHash.toNat
      documentId := word fullProof.publicSignals.documentId.toNat } := by
  simp only [FullProof.coordinates, FullProof.signals, List.forall_mem_cons] at hcoordinates hsignals
  obtain ⟨ha, ha', hx, hx', hy, hy', hc, hc', _⟩ := hcoordinates
  obtain ⟨hroot, hnullifier, hdocument, _⟩ := hsignals
  rw [toSorobanArgs, g1To64_eq ha ha', g2To128_eq ⟨hx, hx'⟩ ⟨hy, hy'⟩, g1To64_eq hc hc', to32Bytes_eq hroot,
    to32Bytes_eq hnullifier, to32Bytes_eq hdocument]
  rfl

end ChainGuard.OffChain.ZkProof
