import ChainGuard.OffChain.Vdf
import ChainGuard.Library.LinearEncryption
import Mathlib.Data.List.GetD

/-! The FHE engine of the client and the shares that `FHEService` deals with it: keys, encryption, the
serialized ciphertexts, and the two ways to share a secret. Bigints are integers. -/
namespace ChainGuard.OffChain.Fhe
set_option autoImplicit false

abbrev Result (α : Type) := Except Thrown α

/-- 2^256 - 2^32 - 977 -/
def FHE_PRIME : ℤ := 0xFFFFFFFFFFFFFFFFFFFFFFFFFFFFFFFFFFFFFFFFFFFFFFFFFFFFFFFEFFFFFC2F

def FHE_LWE_DIMENSION : ℕ := 2

/-- The bytes that the draws of `crypto.getRandomValues` return, one draw after another. -/
abbrev Random := ℕ → Bytes

/-- The draws from the `k`-th on. -/
def Random.from (random : Random) (k : ℕ) : Random := fun i => random (k + i)

structure FHEPublicKey where
  a : List (List ℤ)
  b : List ℤ

structure FHEPrivateKey where
  s : List ℤ

structure FHEKeypair where
  publicKey : FHEPublicKey
  privateKey : FHEPrivateKey

structure FHECiphertext where
  a : List ℤ
  b : ℤ
  deriving DecidableEq

/-! ## Arithmetic -/

def modQ (val : ℤ) : ℤ :=
  let r := val.tmod FHE_PRIME
  if r < 0 then r + FHE_PRIME else r

/-- The loop `acc = modQ(acc + term(i))` for `i` below `n`. -/
def sumModQ (init : ℤ) (term : ℕ → ℤ) (n : ℕ) : ℤ :=
  (List.range n).foldl (fun acc i => modQ (acc + term i)) init

def randomFieldElement (bytes : Bytes) : ℤ := modQ (natBE bytes)

/-! ## Keys and encryption -/

def fheKeyGen (random : Random) (n m : ℕ) : FHEKeypair :=
  let s := (List.range n).map fun i => randomFieldElement (random i)
  let a := (List.range m).map fun i => (List.range n).map fun j => randomFieldElement (random (n + i * n + j))
  let b := a.map fun row => sumModQ 0 (fun j => row.getD j 0 * s.getD j 0) n
  { publicKey := { a, b }, privateKey := { s } }

/-- Of a bigint that is a plaintext already, `secretToBigInt` keeps the residue. -/
def fheEncrypt (plaintext : ℤ) (publicKey : FHEPublicKey) (random : Random) : FHECiphertext :=
  let mVal := modQ plaintext
  let m := publicKey.a.length
  let n := (publicKey.a.headD []).length
  let r := (List.range m).map fun i => (randomFieldElement (random i)).tmod 7 + 1
  let aOut := (List.range n).map fun j =>
    sumModQ 0 (fun i => (publicKey.a.getD i []).getD j 0 * r.getD i 0) m
  let v := sumModQ mVal (fun i => publicKey.b.getD i 0 * r.getD i 0) m
  { a := aOut, b := v }

def fheDecrypt (ciphertext : FHECiphertext) (privateKey : FHEPrivateKey) : Result ℤ :=
  let n := ciphertext.a.length
  if n ≠ privateKey.s.length then .error (.error "Ciphertext dimension does not match private key dimension")
  else
    let dot := sumModQ 0 (fun i => ciphertext.a.getD i 0 * privateKey.s.getD i 0) n
    .ok (modQ (ciphertext.b - dot))

def fheAdd (ct1 ct2 : FHECiphertext) : Result FHECiphertext :=
  if ct1.a.length ≠ ct2.a.length then .error (.error "Cannot add ciphertexts with different dimensions")
  else .ok { a := List.zipWith (fun x y => modQ (x + y)) ct1.a ct2.a, b := modQ (ct1.b + ct2.b) }

/-! ## Aggregation -/

def fheScalarMul (scalar : ℤ) (ct : FHECiphertext) : FHECiphertext :=
  let s := modQ scalar
  { a := ct.a.map fun x => modQ (x * s), b := modQ (ct.b * s) }

/-- Square and multiply; a loop that runs while `e > 0` does nothing for a negative exponent. -/
def modPowQ (base exp : ℤ) : Result ℤ :=
  BinaryPower.loop (fun result b => .ok (modQ (result * b))) (fun b => .ok (modQ (b * b)))
    (exp.toNat.log2 + 1) 1 (modQ base) exp.toNat

def modInverseQ (a : ℤ) : Result ℤ :=
  let val := modQ a
  if val = 0 then .error (.error "Division by zero in modular inverse") else modPowQ val (FHE_PRIME - 2)

/-- The product of the other points, and that of their distances from the point. -/
def numeratorDenominator (points : List ℤ) (i : ℕ) : ℤ × ℤ :=
  (List.range points.length).foldl (fun acc j =>
    if i = j then acc
    else (modQ (acc.1 * points.getD j 0), modQ (acc.2 * (points.getD j 0 - points.getD i 0)))) (1, 1)

def computeLagrangeCoefficients (indices : List ℤ) : Result (List ℤ) :=
  let points := indices.map modQ
  (List.range points.length).mapM fun i => do
    let (num, den) := numeratorDenominator points i
    let denInv ← modInverseQ den
    return modQ (num * denInv)

structure FHEThresholdShare where
  index : ℤ
  ciphertext : FHECiphertext

/-- With no active share, the first one is `undefined`. -/
def fheThresholdAggregate (shares : List FHEThresholdShare) (threshold : ℕ) : Result FHECiphertext := do
  if shares.length < threshold then
    .error (.error ("Insufficient shares: got " ++ toString shares.length ++ ", threshold is " ++
      toString threshold))
  let activeShares := shares.take threshold
  let lambdas ← computeLagrangeCoefficients (activeShares.map FHEThresholdShare.index)
  match List.zipWith (fun lambda share => fheScalarMul lambda share.ciphertext) lambdas activeShares with
  | [] => .error .typeError
  | acc :: terms => terms.foldlM fheAdd acc

def fheAdditiveAggregate (ciphertexts : List FHECiphertext) : Result FHECiphertext :=
  match ciphertexts with
  | [] => .error (.error "No ciphertexts to aggregate")
  | acc :: rest => rest.foldlM fheAdd acc

/-! ## Hexadecimal -/

/-- `BigInt("0x" + digits)`; white space may follow the digits. -/
def bigIntHex (digits : JsString) : Result ℤ :=
  let digits := (digits.reverse.dropWhile isWhiteSpace).reverse
  match hexNat digits with
  | some n => if digits = [] then .error .syntaxError else .ok n
  | none => .error .syntaxError

def secretToBigInt (secret : JsString) : Result ℤ := do
  let cleanHex := if secret.take 2 = js "0x" then secret.drop 2 else secret
  let val ← bigIntHex cleanHex
  return modQ val

def bigIntToHex32 (val : ℤ) : JsString :=
  let hex := Vdf.hexDigits (modQ val).toNat
  (List.replicate (64 - hex.length) 0 ++ hex).map hexDigit

def fheDecryptToHex (ciphertext : FHECiphertext) (privateKey : FHEPrivateKey) : Result JsString := do
  let m ← fheDecrypt ciphertext privateKey
  return bigIntToHex32 m

def serializeFheCiphertext (ct : FHECiphertext) : JsString :=
  js "0x" ++ bigIntToHex32 ct.a.length ++ ct.a.flatMap bigIntToHex32 ++ bigIntToHex32 ct.b

/-- `n` words of 64 digits, and what follows them. -/
def readWords : ℕ → JsString → Result (List ℤ × JsString)
  | 0, hex => .ok ([], hex)
  | n + 1, hex => do
    let first ← bigIntHex (hex.take 64)
    let (rest, after) ← readWords n (hex.drop 64)
    return (first :: rest, after)

def deserializeFheCiphertext (hexInput : JsString) : Result FHECiphertext := do
  let hex := if hexInput.take 2 = js "0x" then hexInput.drop 2 else hexInput
  if hex.length < 64 * 3 then 
    .error (.error ("Invalid FHE ciphertext payload length: " ++ toString hex.length))
  let n ← bigIntHex (hex.take 64)
  let (a, rest) ← readWords n.toNat (hex.drop 64)
  let b ← bigIntHex (rest.take 64)
  return { a, b }

/-! ## Shares -/

/-- The shares that are drawn and the one that completes them to the secret, then their ciphertexts. -/
def createAdditiveSharesFHE (secretHex : JsString) (guardianCount : ℕ) (publicKey : FHEPublicKey)
    (random : Random) : Result (List ℤ × List JsString) := do
  if guardianCount < 1 then .error (.error "Guardian count must be at least 1")
  let secretVal ← secretToBigInt secretHex
  let drawn := (List.range (guardianCount - 1)).map fun i => modQ (natBE (random i))
  let sum := drawn.foldl (fun sum share => modQ (sum + share)) 0
  let lastShare := modQ (secretVal - sum)
  let sharesPlaintext := drawn ++ [lastShare]
  let m := publicKey.a.length
  let sharesFHE := sharesPlaintext.mapIdx fun i share =>
    serializeFheCiphertext (fheEncrypt share publicKey (random.from (guardianCount - 1 + i * m)))
  return (sharesPlaintext, sharesFHE)

/-- The loop over the coefficients, the last one first. -/
def evaluate (coeffs : List ℤ) (x : ℤ) : ℤ := coeffs.foldr (fun c y => modQ (y * x + c)) 0

def coefficients (secretVal : ℤ) (threshold : ℕ) (random : Random) : List ℤ :=
  secretVal :: (List.range (threshold - 1)).map fun i => modQ (natBE (random i))

def createThresholdSharesFHE (secretHex : JsString) (n threshold : ℕ) (publicKey : FHEPublicKey)
    (random : Random) : Result (List (ℕ × ℤ) × List (ℕ × JsString)) := do
  if threshold < 1 ∨ n < threshold then .error (.error "Threshold must satisfy 1 <= threshold <= n")
  let secretVal ← secretToBigInt secretHex
  let coeffs := coefficients secretVal threshold random
  let sharesPlaintext := (List.range n).map fun j => (j + 1, evaluate coeffs (j + 1 : ℕ))
  let m := publicKey.a.length
  let sharesFHE := sharesPlaintext.mapIdx fun j share =>
    (share.1, serializeFheCiphertext (fheEncrypt share.2 publicKey (random.from (threshold - 1 + j * m))))
  return (sharesPlaintext, sharesFHE)

def decryptAggregateCiphertext (aggregateCiphertextHex : JsString) (privateKey : FHEPrivateKey) :
    Result JsString := do
  let ct ← deserializeFheCiphertext aggregateCiphertextHex
  fheDecryptToHex ct privateKey

/-! ## Calldata -/

/-- A string of hexadecimal bytes after `0x`, passed for `bytes`. -/
def getBytes (hex : JsString) : Bytes := bufferFromHex (hex.drop 2)

/-- `bytes` as a client reads them. -/
def hexlify (b : Bytes) : JsString := js "0x" ++ hexString b

/-! What the FHE engine computes, modulo its prime, and the bytes of its ciphertexts. -/
open LinearEncryption Matrix
abbrev Residue := ZMod FHE_PRIME.toNat

theorem FHE_PRIME_toNat : (FHE_PRIME.toNat : ℤ) = FHE_PRIME := by decide

/-! ## Arithmetic -/

theorem modQ_eq_emod (val : ℤ) : modQ val = val % FHE_PRIME := by
  have hlow := Int.emod_nonneg val (show FHE_PRIME ≠ 0 by decide)
  have hhigh := Int.emod_lt_of_pos val (show 0 < FHE_PRIME by decide)
  have habs : (FHE_PRIME.natAbs : ℤ) = FHE_PRIME := rfl
  unfold modQ
  dsimp only
  rw [Int.tmod_eq_emod]
  split_ifs <;> omega

theorem modQ_nonneg (val : ℤ) : 0 ≤ modQ val := by
  rw [modQ_eq_emod]
  exact Int.emod_nonneg _ (by decide)

theorem modQ_lt (val : ℤ) : modQ val < FHE_PRIME := by
  rw [modQ_eq_emod]
  exact Int.emod_lt_of_pos _ (by decide)

theorem modQ_of_lt {val : ℤ} (h0 : 0 ≤ val) (h : val < FHE_PRIME) : modQ val = val := by
  rw [modQ_eq_emod, Int.emod_eq_of_lt h0 h]

@[simp] theorem cast_modQ (val : ℤ) : (modQ val : Residue) = val := by
  rw [modQ_eq_emod]
  exact ZMod.intCast_mod val FHE_PRIME.toNat

theorem eq_of_cast_eq {x y : ℤ} (hx : 0 ≤ x ∧ x < FHE_PRIME) (hy : 0 ≤ y ∧ y < FHE_PRIME)
    (h : (x : Residue) = y) : x = y := by
  rw [ZMod.intCast_eq_intCast_iff', FHE_PRIME_toNat, Int.emod_eq_of_lt hx.1 hx.2, Int.emod_eq_of_lt hy.1 hy.2] at h
  exact h

theorem cast_sumModQ (init : ℤ) (term : ℕ → ℤ) (n : ℕ) :
    (sumModQ init term n : Residue) = init + ∑ i ∈ Finset.range n, (term i : Residue) := by
  induction n with
  | zero => simp [sumModQ]
  | succ n ih =>
    rw [sumModQ, List.range_succ, List.foldl_append, ← sumModQ, List.foldl_cons, List.foldl_nil, cast_modQ,
      Int.cast_add, ih, Finset.sum_range_succ, add_assoc]

theorem sumModQ_nonneg {init : ℤ} (h : 0 ≤ init) (term : ℕ → ℤ) (n : ℕ) : 0 ≤ sumModQ init term n := by
  cases n with
  | zero => exact h
  | succ n =>
    rw [sumModQ, List.range_succ, List.foldl_append]
    exact modQ_nonneg _

theorem sumModQ_lt {init : ℤ} (h : init < FHE_PRIME) (term : ℕ → ℤ) (n : ℕ) : sumModQ init term n < FHE_PRIME := by
  cases n with
  | zero => exact h
  | succ n =>
    rw [sumModQ, List.range_succ, List.foldl_append]
    exact modQ_lt _

/-! ## Keys and ciphertexts as matrices and vectors -/

variable {n m : ℕ} {random random' : Random} {plaintext : ℤ}

def FHEPublicKey.samples (pk : FHEPublicKey) (m n : ℕ) : Matrix (Fin m) (Fin n) Residue :=
  fun i j => ((pk.a.getD i []).getD j 0 : ℤ)

def FHEPublicKey.values (pk : FHEPublicKey) (m : ℕ) : Fin m → Residue := fun i => (pk.b.getD i 0 : ℤ)

def FHEPrivateKey.vector (sk : FHEPrivateKey) (n : ℕ) : Fin n → Residue := fun j => (sk.s.getD j 0 : ℤ)

def FHECiphertext.value (ct : FHECiphertext) (n : ℕ) : Ciphertext (Fin n) Residue :=
  (fun j => (ct.a.getD j 0 : ℤ), ct.b)

theorem getD_map_range {α : Type} (f : ℕ → α) (d : α) {i : ℕ} (h : i < n) :
    ((List.range n).map f).getD i d = f i := by
  rw [List.getD_eq_getElem _ _ (by simpa using h), List.getElem_map, List.getElem_range]

theorem keyGen_values (random : Random) (n m : ℕ) :
    (fheKeyGen random n m).publicKey.values m =
      (fheKeyGen random n m).publicKey.samples m n *ᵥ (fheKeyGen random n m).privateKey.vector n := by
  funext i
  simp only [FHEPublicKey.values, FHEPublicKey.samples, FHEPrivateKey.vector, fheKeyGen, List.map_map,
    getD_map_range _ _ i.isLt, Function.comp_apply, cast_sumModQ, mulVec, dotProduct]
  rw [Finset.sum_range]
  simp

structure FHEPublicKey.Sized (pk : FHEPublicKey) (m n : ℕ) : Prop where
  rows : pk.a.length = m
  columns : (pk.a.headD []).length = n

theorem keyGen_sized (random : Random) (n : ℕ) {m : ℕ} (hm : 0 < m) :
    (fheKeyGen random n m).publicKey.Sized m n := by
  obtain ⟨m, rfl⟩ := Nat.exists_eq_succ_of_ne_zero (Nat.pos_iff_ne_zero.mp hm)
  refine ⟨by simp [fheKeyGen], ?_⟩
  simp only [fheKeyGen, List.range_succ_eq_map, List.map_cons, List.headD_cons, List.length_map, List.length_range]

theorem encrypt_value {pk : FHEPublicKey} (hsized : pk.Sized m n) (plaintext : ℤ) (random : Random) :
    ∃ r, (fheEncrypt plaintext pk random).value n =
      LinearEncryption.encrypt (pk.samples m n) (pk.values m) r plaintext := by
  refine ⟨fun i => ((randomFieldElement (random i)).tmod 7 + 1 : ℤ), ?_⟩
  unfold fheEncrypt FHECiphertext.value LinearEncryption.encrypt
  dsimp only
  rw [hsized.rows, hsized.columns]
  refine Prod.ext ?_ ?_
  · funext j
    simp only [getD_map_range _ _ j.isLt, cast_sumModQ, Finset.sum_range, vecMul, dotProduct, FHEPublicKey.samples,
      Int.cast_zero, zero_add]
    exact Finset.sum_congr rfl fun i _ => by rw [getD_map_range _ _ i.isLt, Int.cast_mul, mul_comm]
  · simp only [cast_sumModQ, Finset.sum_range, dotProduct, FHEPublicKey.values, cast_modQ]
    exact congrArg _ (Finset.sum_congr rfl fun i _ => by rw [getD_map_range _ _ i.isLt, Int.cast_mul, mul_comm])

theorem decrypt_value {ct : FHECiphertext} {sk : FHEPrivateKey} (hct : ct.a.length = n) (hsk : sk.s.length = n) :
    ∃ message, fheDecrypt ct sk = .ok message ∧ 0 ≤ message ∧ message < FHE_PRIME ∧
      (message : Residue) = LinearEncryption.decrypt (sk.vector n) (ct.value n) := by
  refine ⟨_, if_neg (by rw [hct, hsk]; exact fun h => h rfl), modQ_nonneg _, modQ_lt _, ?_⟩
  simp only [cast_modQ, Int.cast_sub, cast_sumModQ, hct, Finset.sum_range, LinearEncryption.decrypt_apply,
    dotProduct, FHECiphertext.value, FHEPrivateKey.vector]
  simp

/-- Every component is a residue, and so is the dimension. -/
structure FHECiphertext.Reduced (ct : FHECiphertext) : Prop where
  a : ∀ x ∈ ct.a, 0 ≤ x ∧ x < FHE_PRIME
  b : 0 ≤ ct.b ∧ ct.b < FHE_PRIME
  dimension : (ct.a.length : ℤ) < FHE_PRIME

theorem encrypt_length {pk : FHEPublicKey} (hsized : pk.Sized m n) (plaintext : ℤ) (random : Random) :
    (fheEncrypt plaintext pk random).a.length = n := by
  simp only [fheEncrypt, List.length_map, List.length_range, hsized.columns]

theorem encrypt_reduced {pk : FHEPublicKey} (hsized : pk.Sized m n) (hn : (n : ℤ) < FHE_PRIME) (plaintext : ℤ)
    (random : Random) : (fheEncrypt plaintext pk random).a.length = n ∧ (fheEncrypt plaintext pk random).Reduced := by
  have hlength := encrypt_length hsized plaintext random
  refine ⟨hlength, ?_, ?_, by rwa [hlength]⟩
  · intro x hx
    obtain ⟨j, _, rfl⟩ := List.mem_map.mp hx
    exact ⟨sumModQ_nonneg (le_refl 0) _ _, sumModQ_lt (by decide) _ _⟩
  · exact ⟨sumModQ_nonneg (modQ_nonneg _) _ _, sumModQ_lt (modQ_lt _) _ _⟩

theorem fheAdd_sum {ct ct' : FHECiphertext} (h : ct.a.length = n) (h' : ct'.a.length = n) :
    ∃ sum, fheAdd ct ct' = .ok sum ∧ sum.a.length = n ∧ (∀ x ∈ sum.a, 0 ≤ x ∧ x < FHE_PRIME) ∧
      (0 ≤ sum.b ∧ sum.b < FHE_PRIME) ∧ sum.value n = ct.value n + ct'.value n := by
  have hlength : (List.zipWith (fun x y => modQ (x + y)) ct.a ct'.a).length = n := by
    rw [List.length_zipWith, h, h', min_self]
  refine ⟨_, if_neg (by rw [h, h']; exact fun hne => hne rfl), hlength, ?_, ⟨modQ_nonneg _, modQ_lt _⟩, ?_⟩
  · intro x hx
    obtain ⟨i, hi, rfl⟩ := List.getElem_of_mem hx
    rw [List.getElem_zipWith]
    exact ⟨modQ_nonneg _, modQ_lt _⟩
  · refine Prod.ext ?_ (by simp [FHECiphertext.value])
    funext j
    have hj : (j : ℕ) < ct.a.length := h ▸ j.isLt
    have hj' : (j : ℕ) < ct'.a.length := h' ▸ j.isLt
    simp only [FHECiphertext.value, Prod.fst_add, Pi.add_apply]
    rw [List.getD_eq_getElem _ _ (by rw [hlength]; exact j.isLt), List.getElem_zipWith, cast_modQ, Int.cast_add,
      List.getD_eq_getElem _ _ hj, List.getD_eq_getElem _ _ hj']

theorem fheAdd_value {ct ct' : FHECiphertext} (h : ct.a.length = n) (h' : ct'.a.length = n) (hn : (n : ℤ) < FHE_PRIME) :
    ∃ sum, fheAdd ct ct' = .ok sum ∧ sum.a.length = n ∧ sum.Reduced ∧
      sum.value n = ct.value n + ct'.value n := by
  obtain ⟨sum, hok, hlength, ha, hb, hvalue⟩ := fheAdd_sum h h'
  exact ⟨sum, hok, hlength, ⟨ha, hb, by rwa [hlength]⟩, hvalue⟩

/-! ## Serialized ciphertexts -/

def FHECiphertext.words (ct : FHECiphertext) : List ℕ := ct.a.map Int.toNat ++ [ct.b.toNat]

def FHECiphertext.bytes (ct : FHECiphertext) : Bytes := (ct.a.length :: ct.words).flatMap word

theorem hexString_bytesOfPairs {digits : List ℕ} (heven : digits.length % 2 = 0) (hlt : ∀ d ∈ digits, d < 16) :
    hexString (Vdf.bytesOfPairs digits) = digits.map hexDigit := by
  induction digits using Vdf.bytesOfPairs.induct with
  | case1 high low rest ih =>
    have hhigh := hlt high (by simp)
    have hlow := hlt low (by simp)
    have hbyte : (UInt8.ofNat (16 * high + low)).toNat = 16 * high + low := by
      rw [UInt8.toNat_ofNat', Nat.mod_eq_of_lt (by omega)]
    have hdiv : (16 * high + low) / 16 = high := by omega
    have hmod : (16 * high + low) % 16 = low := by omega
    rw [Vdf.bytesOfPairs, hexString_cons, hbyte, hdiv, hmod,
      ih (by rw [List.length_cons, List.length_cons] at heven; omega) (fun d hd => hlt d (by simp [hd]))]
    rfl
  | case2 digits hshort =>
    rcases digits with _ | ⟨high, _ | ⟨low, rest⟩⟩
    · rfl
    · cases heven
    · exact absurd rfl (hshort high low rest)

theorem digits_word {digits : List ℕ} (hlength : digits.length = 64) (hlt : ∀ d ∈ digits, d < 16) :
    digits.map hexDigit = hexString (word (digits.foldl (fun acc d => acc * 16 + d) 0)) := by
  have heven : digits.length % 2 = 0 := by rw [hlength]
  have hvalue : natBE (Vdf.bytesOfPairs digits) = digits.foldl (fun acc d => acc * 16 + d) 0 :=
    Vdf.natBE_bytesOfPairs heven hlt 0
  have hword := bytesBE_natBE (Vdf.bytesOfPairs digits)
  rw [hvalue, Vdf.bytesOfPairs_length, hlength] at hword
  rw [← hexString_bytesOfPairs heven hlt, ← hword]
  rfl

theorem hexDigits_spec {k : ℕ} (hk : k < 16 ^ 64) : (Vdf.hexDigits k).length ≤ 64 ∧
    (∀ d ∈ Vdf.hexDigits k, d < 16) ∧ (Vdf.hexDigits k).foldl (fun acc d => acc * 16 + d) 0 = k := by
  by_cases hzero : k = 0
  · subst hzero
    exact ⟨by decide, by decide, by decide⟩
  · exact ⟨(Vdf.hexDigits_length_le_iff hzero).mpr hk, fun d => Vdf.hexDigits_lt hzero,
      Vdf.hexDigits_value hzero⟩

theorem bigIntToHex32_eq (val : ℤ) : bigIntToHex32 val = hexString (word (modQ val).toNat) := by
  have hrange : (modQ val).toNat < 16 ^ 64 := by
    have hlow := modQ_nonneg val
    have hhigh := modQ_lt val
    have hprime : FHE_PRIME < 16 ^ 64 := by decide
    omega
  obtain ⟨hlength, hlt, hvalue⟩ := hexDigits_spec hrange
  have hzeros : ∀ j, (List.replicate j 0).foldl (fun acc d => acc * 16 + d) 0 = 0 := by
    intro j
    induction j with
    | zero => rfl
    | succ j ih => rw [List.replicate_succ, List.foldl_cons, Nat.zero_mul, Nat.add_zero, ih]
  unfold bigIntToHex32
  dsimp only
  rw [digits_word, List.foldl_append, hzeros, hvalue]
  · rw [List.length_append, List.length_replicate, Nat.sub_add_cancel hlength]
  · intro d hd
    rcases List.mem_append.mp hd with hd | hd
    · rw [List.eq_of_mem_replicate hd]
      decide
    · exact hlt d hd

theorem bigIntToHex32_word {x : ℤ} (h : 0 ≤ x ∧ x < FHE_PRIME) : bigIntToHex32 x = hexString (word x.toNat) := by
  rw [bigIntToHex32_eq, modQ_of_lt h.1 h.2]

theorem hexString_words (ws : List ℕ) : hexString (ws.flatMap word) = ws.flatMap fun w => hexString (word w) := by
  induction ws with
  | nil => rfl
  | cons w ws ih => rw [List.flatMap_cons, hexString_append, ih, List.flatMap_cons]

theorem serialize_eq {ct : FHECiphertext} (h : ct.Reduced) :
    serializeFheCiphertext ct = hexlify ct.bytes := by
  have hbody : ct.a.flatMap bigIntToHex32 = (ct.a.map Int.toNat).flatMap fun w => hexString (word w) := by
    rw [List.flatMap_map]
    exact List.flatMap_congr fun x hx => bigIntToHex32_word (h.a x hx)
  rw [serializeFheCiphertext, hexlify, FHECiphertext.bytes, hexString_words, bigIntToHex32_word ⟨Int.natCast_nonneg _, h.dimension⟩,
    bigIntToHex32_word h.b, hbody, FHECiphertext.words]
  simp only [Int.toNat_natCast, List.flatMap_cons, List.flatMap_append, List.flatMap_nil, List.append_nil,
    List.append_assoc]

/-! ## Reading them back -/

theorem digits_not_space (b : Bytes) : ∀ c ∈ hexString b, isWhiteSpace c = false := by
  intro c hc
  obtain ⟨x, _, hc⟩ := List.mem_flatMap.mp hc
  obtain ⟨hhigh, hlow⟩ := hexDigits_toNat x
  have hdigit : ∀ m : Fin 16, isWhiteSpace (hexDigit m) = false := by decide
  rcases List.mem_pair.mp hc with rfl | rfl
  · exact hdigit ⟨_, hhigh⟩
  · exact hdigit ⟨_, hlow⟩

theorem bigIntHex_hexString {b : Bytes} (hb : b ≠ []) : bigIntHex (hexString b) = .ok (natBE b) := by
  have hkept : ((hexString b).reverse.dropWhile isWhiteSpace).reverse = hexString b := by
    have hstays : (hexString b).reverse.dropWhile isWhiteSpace = (hexString b).reverse := by
      cases hreverse : (hexString b).reverse with
      | nil => rfl
      | cons c rest =>
        have hmem : c ∈ hexString b := by
          rw [← List.mem_reverse, hreverse]
          exact List.mem_cons_self ..
        rw [List.dropWhile_cons_of_neg]
        simp [digits_not_space b c hmem]
    rw [hstays, List.reverse_reverse]
  have hnonempty : hexString b ≠ [] := by
    cases b with
    | nil => exact absurd rfl hb
    | cons x b =>
      rw [hexString_cons]
      exact List.cons_ne_nil _ _
  unfold bigIntHex
  dsimp only
  rw [hkept, hexNat_hexString]
  exact if_neg hnonempty

theorem bigIntHex_word {w : ℕ} (hw : w < 2 ^ 256) : bigIntHex (hexString (word w)) = .ok w := by
  have hne : word w ≠ [] := by
    intro h
    have hlength := word_length w
    rw [h] at hlength
    cases hlength
  rw [bigIntHex_hexString hne, natBE_word, Nat.mod_eq_of_lt hw]

theorem readWords_words {ws : List ℕ} (hws : ∀ w ∈ ws, w < 2 ^ 256) (after : JsString) :
    readWords ws.length ((ws.flatMap fun w => hexString (word w)) ++ after) = .ok (ws.map Int.ofNat, after) := by
  induction ws with
  | nil => rfl
  | cons w ws ih =>
    have hlength : (hexString (word w)).length = 64 := by rw [hexString_length, word_length]
    rw [List.length_cons, readWords, List.flatMap_cons, List.append_assoc, List.take_left' hlength,
      List.drop_left' hlength, bigIntHex_word (hws w (List.mem_cons_self ..)),
      ih fun w' hw' => hws w' (List.mem_cons_of_mem _ hw')]
    rfl

theorem word_of_residue {x : ℤ} (h : 0 ≤ x ∧ x < FHE_PRIME) : x.toNat < 2 ^ 256 := by
  have hprime : FHE_PRIME < 2 ^ 256 := by decide
  omega

theorem deserialize_hexlify {ct : FHECiphertext} (h : ct.Reduced) (hdimension : 1 ≤ ct.a.length) :
    deserializeFheCiphertext (hexlify ct.bytes) = .ok ct := by
  have hlength : ∀ w, (hexString (word w)).length = 64 := fun w => by rw [hexString_length, word_length]
  have hdim : ct.a.length < 2 ^ 256 := word_of_residue ⟨Int.natCast_nonneg _, h.dimension⟩
  have hwords : ∀ w ∈ ct.a.map Int.toNat, w < 2 ^ 256 := by
    intro w hw
    obtain ⟨x, hx, rfl⟩ := List.mem_map.mp hw
    exact word_of_residue (h.a x hx)
  have hback : (ct.a.map Int.toNat).map Int.ofNat = ct.a := by
    rw [List.map_map]
    conv_rhs => rw [← List.map_id ct.a]
    exact List.map_congr_left fun x hx => Int.toNat_of_nonneg (h.a x hx).1
  have hlast : Int.ofNat ct.b.toNat = ct.b := Int.toNat_of_nonneg h.b.1
  have hbody : hexString ct.bytes = hexString (word ct.a.length) ++
      (((ct.a.map Int.toNat).flatMap fun w => hexString (word w)) ++ hexString (word ct.b.toNat)) := by
    rw [FHECiphertext.bytes, hexString_words, List.flatMap_cons, FHECiphertext.words, List.flatMap_append,
      List.flatMap_cons, List.flatMap_nil, List.append_nil]
  have hread := readWords_words hwords (hexString (word ct.b.toNat))
  have htake : (hexString (word ct.b.toNat)).take 64 = hexString (word ct.b.toNat) :=
    List.take_of_length_le (by rw [hlength])
  rw [List.length_map, hback] at hread
  have hwidth : ∀ ws : List ℕ, (ws.flatMap fun w => hexString (word w)).length = 64 * ws.length := by
    intro ws
    induction ws with
    | nil => rfl
    | cons w ws ih =>
      rw [List.flatMap_cons, List.length_append, hlength, ih, List.length_cons]
      ring
  have hlong : ¬ (hexString (word ct.a.length) ++
      (((ct.a.map Int.toNat).flatMap fun w => hexString (word w)) ++ hexString (word ct.b.toNat))).length < 64 * 3 := by
    rw [List.length_append, List.length_append, hlength, hlength, hwidth, List.length_map]
    omega
  have hhex : ∀ hex : JsString, (if (js "0x" ++ hex).take 2 = js "0x" then (js "0x" ++ hex).drop 2 else js "0x" ++ hex) =
      hex := fun hex => rfl
  unfold deserializeFheCiphertext
  dsimp only
  rw [hexlify, hhex, hbody, if_neg hlong, List.take_left' (hlength _), List.drop_left' (hlength _),
    bigIntHex_word hdim]
  simp only [bind, Except.bind, pure, Except.pure, Int.toNat_natCast, hread, htake,
    bigIntHex_word (word_of_residue h.b)]
  exact congrArg Except.ok (congrArg (FHECiphertext.mk ct.a) hlast)

end ChainGuard.OffChain.Fhe
